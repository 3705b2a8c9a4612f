import Speakeasy.AtomTable

namespace Speakeasy

namespace AtomSession

open AtomTable

variable {r : TextRules} {s : AtomSession}

theorem integerAtom_ok_iff (r : TextRules) (text : PyStr) :
    (∃ n, r.integerAtom text = .ok n) ↔ Parses r text := by
  unfold TextRules.integerAtom Parses
  split
  next t =>
    constructor
    · rintro ⟨n, hn⟩ u hu
      cases hu
      cases hint : r.int t with
      | error e => simp [hint, Except.map] at hn
      | ok m => exact ⟨m, rfl⟩
    · intro h
      obtain ⟨n, hn⟩ := h t rfl
      rw [hn]
      exact ⟨_, rfl⟩
  next hnot =>
    refine iff_of_true ⟨none, rfl⟩ fun t ht => absurd ht ?_
    exact fun heq => hnot t heq

theorem numberForm_of_integer {text : PyStr} {n : Int} (h : r.integerAtom text = .ok (some n)) :
    NumberForm r text := by
  unfold TextRules.integerAtom at h
  split at h
  next t =>
    cases hint : r.int t with
    | error e => simp [hint, Except.map] at h
    | ok m => exact ⟨t, m, rfl, hint⟩
  next => cases h

theorem parses_nil (r : TextRules) : Parses r [] := fun _ h => by cases h

theorem addLocalAtom_fst (t : AtomTable) (text : PyStr) :
    (t.addLocalAtom r text).1 = (t.findLocalAtom r text).getD t.currLocalAtom := by
  rw [findLocalAtom_eq]
  unfold addLocalAtom
  cases t.getLocalAtom r text <;> rfl

theorem Inv.findLocalAtom_ge (h : Inv r s) (text : PyStr) :
    0xC000 ≤ (s.table.findLocalAtom r text).getD s.table.currLocalAtom := by
  rw [findLocalAtom_eq]
  cases hget : s.table.getLocalAtom r text with
  | none => exact h.next
  | some p =>
    obtain ⟨n, hn, -⟩ := getLocalAtom_some hget
    exact (h.range p.1 n p.2 hn).1

theorem Inv.addAtom_iff (h : Inv r s) (text : PyStr) :
    (∃ reply, (s.table.addAtom r text).1 = .ok reply ∧ ReplyLaw r s (.addAtom text) reply) ↔
      Good r s (.addAtom text) := by
  unfold AtomTable.addAtom
  by_cases hnil : text = []
  · subst hnil
    rw [if_pos rfl]
    exact iff_of_true ⟨_, rfl, fun _ => Or.inl rfl⟩ ⟨parses_nil r, fun _ hne => absurd rfl hne⟩
  · rw [if_neg hnil]
    cases hint : r.integerAtom text with
    | error e =>
      refine iff_of_false ?_ fun hgood => ?_
      · rintro ⟨reply, hreply, -⟩
        cases hreply
      · obtain ⟨n, hn⟩ := (integerAtom_ok_iff r text).mpr hgood.1
        rw [hn] at hint
        cases hint
    | ok n =>
      have hparses := (integerAtom_ok_iff r text).mp ⟨n, hint⟩
      cases n with
      | some n =>
        have hform := numberForm_of_integer hint
        exact iff_of_true ⟨_, rfl, fun hnot => absurd hform hnot⟩ ⟨hparses, fun hnot => absurd hform hnot⟩
      | none =>
        have hge := h.findLocalAtom_ge text
        constructor
        · rintro ⟨reply, hreply, hlaw⟩
          cases hreply
          refine ⟨hparses, fun hnot _ => ?_⟩
          have hvalue := hlaw hnot
          simp only [addLocalAtom_fst] at hvalue
          omega
        · rintro ⟨-, hgood⟩
          refine ⟨_, rfl, fun hnot => Or.inr ?_⟩
          have hle := hgood hnot hnil
          simp only [addLocalAtom_fst]
          omega

theorem Inv.findAtom_named (h : Inv r s) {text : PyStr} (hnamed : Named r text) :
    ∃ reply, s.table.findAtom r text = .ok reply ∧ (reply.value ≠ 0 ↔ s.Present r text) ∧
      (s.Present r text → reply.value = (ledger r (r.str text) s.trace).2) := by
  unfold AtomTable.findAtom
  rw [if_neg hnamed.1, hnamed.2, findLocalAtom_eq]
  cases hget : s.table.getLocalAtom r text with
  | none =>
    have hnot : ¬s.Present r text := by
      rw [h.present_iff hnamed]
      rintro ⟨a, n, c, ha, heq⟩
      exact getLocalAtom_none hget ha heq
    exact ⟨_, rfl, iff_of_false (fun hne => hne rfl) hnot, fun hp => absurd hp hnot⟩
  | some p =>
    obtain ⟨n, hn, hlower⟩ := getLocalAtom_some hget
    have hpresent : s.Present r text := (h.present_iff hnamed).mpr ⟨p.1, n, p.2, hn, hlower⟩
    have hrange := h.range p.1 n p.2 hn
    refine ⟨_, rfl, iff_of_true ?_ hpresent, fun _ => ?_⟩
    · simp only
      omega
    · rw [← hlower, (h.present p.1 n p.2 hn).1]

theorem Inv.findAtom_iff (h : Inv r s) (text : PyStr) :
    (∃ reply, s.table.findAtom r text = .ok reply ∧ ReplyLaw r s (.findAtom text) reply) ↔
      Good r s (.findAtom text) := by
  by_cases hnamed : Named r text
  · obtain ⟨reply, hreply, hlaw⟩ := h.findAtom_named hnamed
    refine iff_of_true ⟨reply, hreply, fun hnil => absurd hnil hnamed.1, fun _ => hlaw⟩ ?_
    exact (integerAtom_ok_iff r text).mp ⟨none, hnamed.2⟩
  · unfold AtomTable.findAtom
    by_cases hnil : text = []
    · subst hnil
      rw [if_pos rfl]
      exact iff_of_true ⟨_, rfl, fun _ => rfl, fun hn => absurd hn hnamed⟩ (parses_nil r)
    · rw [if_neg hnil]
      cases hint : r.integerAtom text with
      | error e =>
        refine iff_of_false ?_ fun hgood => ?_
        · rintro ⟨reply, hreply, -⟩
          cases hreply
        · obtain ⟨n, hn⟩ := (integerAtom_ok_iff r text).mpr hgood
          rw [hn] at hint
          cases hint
      | ok n =>
        cases n with
        | some n =>
          refine iff_of_true ⟨_, rfl, fun hn => absurd hn hnil, fun hn => absurd hn hnamed⟩ ?_
          exact (integerAtom_ok_iff r text).mp ⟨some n, hint⟩
        | none => exact absurd ⟨hnil, hint⟩ hnamed

theorem encodeText_nul_length (cw : Nat) (text : List Nat) :
    (encodeText cw (text ++ [0])).length = (encodeText cw text).length + 1 := by
  unfold encodeText
  split
  next => simp
  next => simp [encodeUnits, encodeChar]

theorem getAtomName_iff (t : AtomTable) (cw nAtom nSize : Nat) :
    (t.getAtomName cw nAtom nSize).written.length ≤ nSize ↔
      ∀ name, t.atomName nAtom = some name → NameFits cw nSize name := by
  unfold getAtomName
  cases hname : t.atomName nAtom with
  | none => exact iff_of_true (Nat.zero_le _) fun name h => by cases h
  | some name =>
    have hone : (∀ n, some name = some n → NameFits cw nSize n) ↔ NameFits cw nSize name :=
      ⟨fun h => h name rfl, fun h n hn => by cases hn; exact h⟩
    have hnul : ∀ u : PyStr, (encodeText cw ((u ++ ['\x00']).map Char.toNat)).length =
        (encodeText cw (u.map Char.toNat)).length + 1 := by
      intro u
      rw [List.map_append]
      exact encodeText_nul_length cw _
    rw [hone, NameFits]
    by_cases hzero : nSize = 0
    · subst hzero
      have htext : (if 0 < (name ++ ['\x00']).length then
          (if 0 = 0 then (name ++ ['\x00']).dropLast else (name ++ ['\x00']).take (0 - 1)) ++ ['\x00']
          else name ++ ['\x00']) = name ++ ['\x00'] := by simp
      refine iff_of_false (fun hle => ?_) fun hfits => hfits.1 rfl
      dsimp only at hle
      rw [htext, hnul] at hle
      omega
    · have htext : (if nSize < (name ++ ['\x00']).length then
          (if nSize = 0 then (name ++ ['\x00']).dropLast else (name ++ ['\x00']).take (nSize - 1)) ++ ['\x00']
          else name ++ ['\x00']) = name.take (nSize - 1) ++ ['\x00'] := by
        rw [if_neg hzero]
        split
        next hlt =>
          rw [List.length_append, List.length_singleton] at hlt
          rw [List.take_append_of_le_length (by omega)]
        next hge =>
          rw [List.length_append, List.length_singleton] at hge
          rw [List.take_of_length_le (by omega)]
      simp only [htext, hnul]
      simp only [ne_eq, hzero, not_false_eq_true, true_and]
      omega

/-- A call keeps the law of the set exactly when it is good. -/
theorem Inv.stepLaw_iff (h : Inv r s) (op : AtomOp) : StepLaw r s op ↔ Good r s op := by
  have hatoms : ∀ a b, s.Present r a → s.Present r b →
      ((ledger r (r.str a) s.trace).2 = (ledger r (r.str b) s.trace).2 ↔ r.str a = r.str b) :=
    fun a b ha hb => h.atoms ha hb
  have hlaw : StepLaw r s op ↔ ∃ reply, (s.table.call r op).1 = .ok reply ∧ ReplyLaw r s op reply :=
    ⟨fun hl => hl.reply, fun hr => ⟨hr, hatoms⟩⟩
  rw [hlaw]
  cases op with
  | addAtom text => exact h.addAtom_iff text
  | findAtom text => exact h.findAtom_iff text
  | getAtomName cw nAtom nSize =>
    rw [Good, ← getAtomName_iff]
    constructor
    · rintro ⟨reply, hreply, hle⟩
      cases hreply
      exact hle
    · exact fun hle => ⟨_, rfl, hle⟩
  | deleteAtom nAtom => exact iff_of_true ⟨_, rfl, trivial⟩ trivial

/-- In a run from the empty table, each call keeps the law of the set exactly when each call is good. -/
theorem run_atomLaw_iff (r : TextRules) (ops : List AtomOp) :
    FoldRuns.EachStep (step r) (StepLaw r) initial ops ↔ FoldRuns.EachStep (step r) (Good r) initial ops := by
  have hinv : ∀ done, Inv r (FoldRuns.run (step r) initial done) :=
    fun done => FoldRuns.run_of_step (fun _ op h => h.step op) (inv_initial r) done
  exact forall_congr' fun done => forall_congr' fun op => forall_congr' fun _ => (hinv done).stepLaw_iff op

/-- The rules for ASCII. -/
def asciiRules : TextRules where
  toLowerCase := asciiLower
  digit c := if c.isDigit then some (c.toNat - 48) else none
  space c := decide (c = ' ')

/-- `#` with no number after it raises. -/
theorem run_not_atomLaw :
    ¬FoldRuns.EachStep (step asciiRules) (StepLaw asciiRules) initial [.addAtom "#abc".toList] := by
  intro h
  obtain ⟨reply, hreply, -⟩ := (h [] (.addAtom "#abc".toList) (List.prefix_refl _)).reply
  have hraise : (initial.table.call asciiRules (.addAtom "#abc".toList)).1 = .error .valueError := by
    decide
  rw [FoldRuns.run_nil, hraise] at hreply
  cases hreply

end AtomSession

end Speakeasy
