import Speakeasy.RegistryPaths
import Speakeasy.OrderedDict
import Speakeasy.SecurePaths
import Speakeasy.FoldRuns

namespace Speakeasy

/-- What Python knows of the characters: lower case, the value of a decimal digit, and spaces. -/
structure TextRules extends LowerCase where
  digit : Char → Option Nat
  space : Char → Bool

inductive AtomError
  | valueError
deriving DecidableEq, Repr

def atomReserved : Nat := 0xC000

namespace TextRules

variable (r : TextRules)

/-- The digits of `int(s)`, with single underscores between them. The flag says that a digit came last. -/
def intDigits : Bool → PyStr → Option (List Nat)
  | prev, [] => if prev then some [] else none
  | prev, c :: s =>
    if c = '_' then if prev then intDigits false s else none
    else (r.digit c).bind fun d => (intDigits true s).map (d :: ·)

/-- `int(s)` for a text: spaces around it, a sign, and no more than 4300 digits. -/
def int (s : PyStr) : Except AtomError Int :=
  let s := (s.dropWhile r.space).rdropWhile r.space
  let (negative, s) := match s with
    | '+' :: s => (false, s)
    | '-' :: s => (true, s)
    | s => (false, s)
  match r.intDigits false s with
  | none => .error .valueError
  | some ds =>
    if 4300 < ds.length then .error .valueError
    else
      let n : Int := ds.foldl (fun n d => 10 * n + d) 0
      .ok (if negative then -n else n)

/-- The number of a text such as `#12`, below the atoms of the table. -/
def integerAtom (s : PyStr) : Except AtomError (Option Int) :=
  match s with
  | '#' :: s => (r.int s).map fun n => if n < (atomReserved : Int) then some n else none
  | _ => .ok none

end TextRules

/-- An entry of the table is a text with its reference count. -/
structure AtomTable where
  localAtomTable : OrderedDict Nat (PyStr × Nat)
  currLocalAtom : Nat

/-- What a call returns, the last error that it sets, and the units that it writes to the buffer. -/
structure AtomReply where
  value : Int
  lastError : Option Nat
  written : List Nat
deriving DecidableEq, Repr

inductive AtomOp
  | addAtom (s : PyStr)
  | findAtom (s : PyStr)
  | getAtomName (cw nAtom nSize : Nat)
  | deleteAtom (nAtom : Nat)
deriving DecidableEq, Repr

namespace AtomTable

variable (r : TextRules) (t : AtomTable)

def errorFileNotFound : Nat := 2
def errorInvalidHandle : Nat := 6
def errorInvalidParameter : Nat := 87

def initial : AtomTable := ⟨OrderedDict.empty, 0xC000⟩

def getLocalAtom (s : PyStr) : Option (Nat × Nat) :=
  (t.localAtomTable.entries.find? fun e => decide (r.str e.2.1 = r.str s)).map fun e => (e.1, e.2.2)

def addLocalAtom (s : PyStr) : Nat × AtomTable :=
  match t.getLocalAtom r s with
  | none => (t.currLocalAtom, ⟨t.localAtomTable.insert t.currLocalAtom (s, 1), t.currLocalAtom + 1⟩)
  | some (atom, cnt) =>
    let name := (t.localAtomTable.get? atom).elim s Prod.fst
    (atom, { t with localAtomTable := t.localAtomTable.insert atom (name, cnt + 1) })

def findLocalAtom (s : PyStr) : Option Nat :=
  (t.localAtomTable.entries.find? fun e => decide (r.str e.2.1 = r.str s)).map Prod.fst

def deleteLocalAtom (atom : Nat) : Bool × AtomTable :=
  match t.localAtomTable.get? atom with
  | none => (false, t)
  | some (s, cnt) =>
    if cnt - 1 = 0 then (true, { t with localAtomTable := t.localAtomTable.pop atom })
    else (true, { t with localAtomTable := t.localAtomTable.insert atom (s, cnt - 1) })

def addAtom (s : PyStr) : Except AtomError AtomReply × AtomTable :=
  if s = [] then (.ok ⟨0, some errorInvalidParameter, []⟩, t)
  else
    match r.integerAtom s with
    | .error e => (.error e, t)
    | .ok (some n) => (.ok ⟨n, none, []⟩, t)
    | .ok none => (.ok ⟨(t.addLocalAtom r s).1, none, []⟩, (t.addLocalAtom r s).2)

def findAtom (s : PyStr) : Except AtomError AtomReply :=
  if s = [] then .ok ⟨0, some errorInvalidParameter, []⟩
  else
    match r.integerAtom s with
    | .error e => .error e
    | .ok (some n) => .ok ⟨n, none, []⟩
    | .ok none =>
      match t.findLocalAtom r s with
      | none => .ok ⟨0, some errorFileNotFound, []⟩
      | some atom => .ok ⟨atom, none, []⟩

/-- `f"#{nAtom}"`, or the name of an atom of the table. -/
def atomName (nAtom : Nat) : Option PyStr :=
  if nAtom < atomReserved then some ('#' :: Nat.toDigits 10 nAtom)
  else (t.localAtomTable.get? nAtom).map Prod.fst

def getAtomName (cw nAtom nSize : Nat) : AtomReply :=
  match t.atomName nAtom with
  | none => ⟨0, some errorFileNotFound, []⟩
  | some s =>
    let s := s ++ ['\x00']
    -- A size of 0 makes the slice `s[:-1]`.
    let s := if nSize < s.length then (if nSize = 0 then s.dropLast else s.take (nSize - 1)) ++ ['\x00'] else s
    ⟨s.length - 1, none, encodeText cw (s.map Char.toNat)⟩

def deleteAtom (nAtom : Nat) : AtomReply × AtomTable :=
  if nAtom < atomReserved then (⟨0, none, []⟩, t)
  else if (t.deleteLocalAtom nAtom).1 then (⟨0, none, []⟩, (t.deleteLocalAtom nAtom).2)
  else (⟨nAtom, some errorInvalidHandle, []⟩, t)

def call : AtomOp → Except AtomError AtomReply × AtomTable
  | .addAtom s => t.addAtom r s
  | .findAtom s => (t.findAtom r s, t)
  | .getAtomName cw nAtom nSize => (.ok (t.getAtomName cw nAtom nSize), t)
  | .deleteAtom nAtom => (.ok (t.deleteAtom nAtom).1, (t.deleteAtom nAtom).2)

end AtomTable

/-- The table with the calls so far and their replies. -/
structure AtomSession where
  table : AtomTable
  trace : List (AtomOp × Except AtomError AtomReply)

namespace AtomSession

variable (r : TextRules)

def initial : AtomSession := ⟨AtomTable.initial, []⟩

def step (s : AtomSession) (op : AtomOp) : AtomSession :=
  ⟨(s.table.call r op).2, s.trace ++ [(op, (s.table.call r op).1)]⟩

/-- The text names an atom of the table, and not a number. -/
def Named (s : PyStr) : Prop := s ≠ [] ∧ r.integerAtom s = .ok none

instance (s : PyStr) : Decidable (Named r s) := inferInstanceAs (Decidable (_ ∧ _))

/-- How often a text was added more than its atom was deleted, and the atom that was returned for it, when
a text that is equal in lower case counts as the same. -/
def ledgerStep (key : PyStr) (l : Nat × Int) : AtomOp × Except AtomError AtomReply → Nat × Int
  | (.addAtom s, .ok reply) => if Named r s ∧ r.str s = key then (l.1 + 1, reply.value) else l
  | (.deleteAtom nAtom, .ok _) => if (nAtom : Int) = l.2 then (l.1 - 1, l.2) else l
  | _ => l

def ledger (key : PyStr) (trace : List (AtomOp × Except AtomError AtomReply)) : Nat × Int :=
  trace.foldl (ledgerStep r key) (0, 0)

/-- The text is `#` and a number. -/
def NumberForm (s : PyStr) : Prop := ∃ t n, s = '#' :: t ∧ r.int t = .ok n

/-- A text is in the set when it was added more often than its atom was deleted. -/
def Present (s : AtomSession) (text : PyStr) : Prop :=
  Named r text ∧ 0 < (ledger r (r.str text) s.trace).1

/-- What a set of counted texts says of one reply. -/
def ReplyLaw (s : AtomSession) : AtomOp → AtomReply → Prop
  | .addAtom text, reply => ¬NumberForm r text → reply.value = 0 ∨ 0xC000 ≤ reply.value ∧ reply.value ≤ 0xFFFF
  | .findAtom text, reply => (text = [] → reply.value = 0) ∧
      (Named r text → (reply.value ≠ 0 ↔ s.Present r text) ∧
        (s.Present r text → reply.value = (ledger r (r.str text) s.trace).2))
  | .getAtomName _ _ nSize, reply => reply.written.length ≤ nSize
  | .deleteAtom _, _ => True

/-- No call raises, each reply is lawful, and the texts that are present have the same atom exactly when
they are equal in lower case. -/
structure StepLaw (s : AtomSession) (op : AtomOp) : Prop where
  reply : ∃ reply, (s.table.call r op).1 = .ok reply ∧ ReplyLaw r s op reply
  atoms : ∀ a b, s.Present r a → s.Present r b →
    ((ledger r (r.str a) s.trace).2 = (ledger r (r.str b) s.trace).2 ↔ r.str a = r.str b)

/-- A text that begins with `#` is followed by a number. -/
def Parses (text : PyStr) : Prop := ∀ t, text = '#' :: t → ∃ n, r.int t = .ok n

/-- The name fits when its first characters take fewer units than the size. -/
def NameFits (cw nSize : Nat) (name : PyStr) : Prop :=
  nSize ≠ 0 ∧ (encodeText cw ((name.take (nSize - 1)).map Char.toNat)).length < nSize

/-- The calls that keep the law. -/
def Good (s : AtomSession) : AtomOp → Prop
  | .addAtom text => Parses r text ∧
      (¬NumberForm r text → text ≠ [] →
        (s.table.findLocalAtom r text).getD s.table.currLocalAtom ≤ 0xFFFF)
  | .findAtom text => Parses r text
  | .getAtomName cw nAtom nSize => ∀ name, s.table.atomName nAtom = some name → NameFits cw nSize name
  | .deleteAtom _ => True

end AtomSession

namespace AtomTable

variable {r : TextRules} {t : AtomTable} {s : PyStr}

theorem getLocalAtom_some {a c : Nat} (h : t.getLocalAtom r s = some (a, c)) :
    ∃ n, t.localAtomTable.get? a = some (n, c) ∧ r.str n = r.str s := by
  obtain ⟨e, he, heq⟩ := Option.map_eq_some_iff.mp h
  obtain ⟨rfl, rfl⟩ := Prod.mk.injEq _ _ _ _ ▸ heq
  have hlower := List.find?_some he
  exact ⟨e.2.1, OrderedDict.get?_eq_some.mpr (List.mem_of_find?_eq_some he), of_decide_eq_true hlower⟩

theorem getLocalAtom_none (h : t.getLocalAtom r s = none) {a c : Nat} {n : PyStr}
    (hget : t.localAtomTable.get? a = some (n, c)) : r.str n ≠ r.str s := by
  have hnone := List.find?_eq_none.mp (Option.map_eq_none_iff.mp h) _ (OrderedDict.get?_eq_some.mp hget)
  simpa using hnone

theorem findLocalAtom_eq : t.findLocalAtom r s = (t.getLocalAtom r s).map Prod.fst := by
  simp [findLocalAtom, getLocalAtom, Function.comp_def]

end AtomTable

namespace AtomSession

open AtomTable

variable {r : TextRules} {s : AtomSession}

/-- The table holds what the calls so far say. -/
structure Inv (r : TextRules) (s : AtomSession) : Prop where
  next : 0xC000 ≤ s.table.currLocalAtom
  range : ∀ a n c, s.table.localAtomTable.get? a = some (n, c) → 0xC000 ≤ a ∧ a < s.table.currLocalAtom
  present : ∀ a n c, s.table.localAtomTable.get? a = some (n, c) →
    ledger r (r.str n) s.trace = (c, (a : Int)) ∧ 0 < c
  absent : ∀ key, (∀ a n c, s.table.localAtomTable.get? a = some (n, c) → r.str n ≠ key) →
    (ledger r key s.trace).1 = 0

theorem ledger_concat (key : PyStr) (trace : List (AtomOp × Except AtomError AtomReply))
    (x : AtomOp × Except AtomError AtomReply) :
    ledger r key (trace ++ [x]) = ledgerStep r key (ledger r key trace) x := by
  rw [ledger, List.foldl_append]
  rfl

/-- Two entries with the same text in lower case are the same. -/
theorem Inv.atom_eq (h : Inv r s) {a b c d : Nat} {m n : PyStr}
    (ha : s.table.localAtomTable.get? a = some (m, c)) (hb : s.table.localAtomTable.get? b = some (n, d))
    (heq : r.str m = r.str n) : a = b := by
  have hm := (h.present a m c ha).1
  rw [heq, (h.present b n d hb).1] at hm
  have hatoms : (b : Int) = a := congrArg Prod.snd hm
  omega

theorem inv_initial (r : TextRules) : Inv r initial where
  next := le_rfl
  range := fun _ _ _ h => by cases h
  present := fun _ _ _ h => by cases h
  absent := fun _ _ => rfl

/-- A call that the ledgers do not count leaves the invariant when it leaves the table. -/
theorem Inv.skip (h : Inv r s) {x : AtomOp × Except AtomError AtomReply}
    (hx : ∀ key l, ledgerStep r key l x = l) : Inv r ⟨s.table, s.trace ++ [x]⟩ where
  next := h.next
  range := h.range
  present a n c hget := by
    rw [ledger_concat, hx]
    exact h.present a n c hget
  absent key hkey := by
    rw [ledger_concat, hx]
    exact h.absent key hkey

theorem Inv.add_new (h : Inv r s) {text : PyStr} (hnamed : Named r text)
    (hnone : s.table.getLocalAtom r text = none) {reply : AtomReply}
    (hreply : reply.value = s.table.currLocalAtom) :
    Inv r ⟨⟨s.table.localAtomTable.insert s.table.currLocalAtom (text, 1), s.table.currLocalAtom + 1⟩,
      s.trace ++ [(.addAtom text, .ok reply)]⟩ where
  next := Nat.le_succ_of_le h.next
  range a n c hget := by
    have hnext := h.next
    simp only [OrderedDict.get?_insert] at hget
    split at hget
    next heq =>
      simp only
      omega
    next =>
      have := h.range a n c hget
      simp only
      omega
  present a n c hget := by
    simp only [OrderedDict.get?_insert] at hget
    split at hget
    next heq =>
      cases hget
      have hzero := h.absent (r.str text) fun b m d hb => getLocalAtom_none hnone hb
      rw [ledger_concat, ledgerStep, if_pos ⟨hnamed, rfl⟩, hzero, hreply, heq]
      exact ⟨rfl, Nat.one_pos⟩
    next =>
      have hother : ¬(Named r text ∧ r.str text = r.str n) :=
        fun hsame => getLocalAtom_none hnone hget hsame.2.symm
      rw [ledger_concat, ledgerStep, if_neg hother]
      exact h.present a n c hget
  absent key hkey := by
    have hnew := hkey s.table.currLocalAtom text 1 (by rw [OrderedDict.get?_insert, if_pos rfl])
    rw [ledger_concat, ledgerStep, if_neg fun hsame => hnew hsame.2]
    refine h.absent key fun a n c hget => hkey a n c ?_
    have hne : a ≠ s.table.currLocalAtom := Nat.ne_of_lt (h.range a n c hget).2
    rw [OrderedDict.get?_insert, if_neg hne]
    exact hget

theorem Inv.add_known (h : Inv r s) {text name : PyStr} {atom cnt : Nat} (hnamed : Named r text)
    (hget : s.table.localAtomTable.get? atom = some (name, cnt)) (hname : r.str name = r.str text)
    {reply : AtomReply} (hreply : reply.value = atom) :
    Inv r ⟨{ s.table with localAtomTable := s.table.localAtomTable.insert atom (name, cnt + 1) },
      s.trace ++ [(.addAtom text, .ok reply)]⟩ where
  next := h.next
  range a n c ha := by
    simp only [OrderedDict.get?_insert] at ha
    split at ha
    next heq =>
      rw [heq]
      exact h.range atom name cnt hget
    next => exact h.range a n c ha
  present a n c ha := by
    simp only [OrderedDict.get?_insert] at ha
    split at ha
    next heq =>
      cases ha
      rw [ledger_concat, ledgerStep, if_pos ⟨hnamed, hname.symm⟩, (h.present atom name cnt hget).1,
        hreply, heq]
      exact ⟨rfl, Nat.succ_pos cnt⟩
    next hne =>
      have hother : ¬(Named r text ∧ r.str text = r.str n) :=
        fun hsame => hne (h.atom_eq ha hget (hsame.2.symm.trans hname.symm))
      rw [ledger_concat, ledgerStep, if_neg hother]
      exact h.present a n c ha
  absent key hkey := by
    have hold := hkey atom name (cnt + 1) (by rw [OrderedDict.get?_insert, if_pos rfl])
    have hother : ¬(Named r text ∧ r.str text = key) := fun hsame => hold (hname.trans hsame.2)
    rw [ledger_concat, ledgerStep, if_neg hother]
    refine h.absent key fun a n c ha => ?_
    by_cases heq : a = atom
    · rw [heq, hget] at ha
      cases ha
      exact hold
    · exact hkey a n c (by rw [OrderedDict.get?_insert, if_neg heq, ha])

/-- A call that deletes no atom of the table takes nothing from the texts that are present. -/
theorem Inv.delete_unknown (h : Inv r s) {nAtom : Nat}
    (hnone : s.table.localAtomTable.get? nAtom = none) (reply : AtomReply) :
    Inv r ⟨s.table, s.trace ++ [(.deleteAtom nAtom, .ok reply)]⟩ where
  next := h.next
  range := h.range
  present a n c hget := by
    have hne : ¬(nAtom : Int) = a := by
      intro heq
      have hsame : nAtom = a := by omega
      rw [hsame, hget] at hnone
      cases hnone
    rw [ledger_concat, ledgerStep, (h.present a n c hget).1, if_neg hne]
    exact ⟨rfl, (h.present a n c hget).2⟩
  absent key hkey := by
    have hzero := h.absent key hkey
    rw [ledger_concat, ledgerStep]
    split
    next => rw [hzero]
    next => exact hzero

theorem Inv.delete_last (h : Inv r s) {nAtom cnt : Nat} {name : PyStr}
    (hget : s.table.localAtomTable.get? nAtom = some (name, cnt)) (hcnt : cnt - 1 = 0)
    (reply : AtomReply) :
    Inv r ⟨{ s.table with localAtomTable := s.table.localAtomTable.pop nAtom },
      s.trace ++ [(.deleteAtom nAtom, .ok reply)]⟩ where
  next := h.next
  range a n c ha := by
    simp only [OrderedDict.get?_pop] at ha
    split at ha
    next => cases ha
    next => exact h.range a n c ha
  present a n c ha := by
    simp only [OrderedDict.get?_pop] at ha
    split at ha
    next => cases ha
    next hne =>
      have hother : ¬(nAtom : Int) = a := by omega
      rw [ledger_concat, ledgerStep, (h.present a n c ha).1, if_neg hother]
      exact ⟨rfl, (h.present a n c ha).2⟩
  absent key hkey := by
    by_cases hname : r.str name = key
    · rw [ledger_concat, ledgerStep, ← hname, (h.present nAtom name cnt hget).1, if_pos rfl]
      exact hcnt
    · have hzero : (ledger r key s.trace).1 = 0 := by
        refine h.absent key fun a n c ha => ?_
        by_cases heq : a = nAtom
        · rw [heq, hget] at ha
          cases ha
          exact hname
        · exact hkey a n c (by rw [OrderedDict.get?_pop, if_neg heq, ha])
      rw [ledger_concat, ledgerStep]
      split
      next => rw [hzero]
      next => exact hzero

theorem Inv.delete_more (h : Inv r s) {nAtom cnt : Nat} {name : PyStr}
    (hget : s.table.localAtomTable.get? nAtom = some (name, cnt)) (hcnt : cnt - 1 ≠ 0)
    (reply : AtomReply) :
    Inv r ⟨{ s.table with localAtomTable := s.table.localAtomTable.insert nAtom (name, cnt - 1) },
      s.trace ++ [(.deleteAtom nAtom, .ok reply)]⟩ where
  next := h.next
  range a n c ha := by
    simp only [OrderedDict.get?_insert] at ha
    split at ha
    next heq =>
      rw [heq]
      exact h.range nAtom name cnt hget
    next => exact h.range a n c ha
  present a n c ha := by
    simp only [OrderedDict.get?_insert] at ha
    split at ha
    next heq =>
      cases ha
      rw [ledger_concat, ledgerStep, (h.present nAtom name cnt hget).1, if_pos rfl, heq]
      exact ⟨rfl, Nat.pos_of_ne_zero hcnt⟩
    next hne =>
      have hother : ¬(nAtom : Int) = a := by omega
      rw [ledger_concat, ledgerStep, (h.present a n c ha).1, if_neg hother]
      exact ⟨rfl, (h.present a n c ha).2⟩
  absent key hkey := by
    have hold := hkey nAtom name (cnt - 1) (by rw [OrderedDict.get?_insert, if_pos rfl])
    have hzero : (ledger r key s.trace).1 = 0 := by
      refine h.absent key fun a n c ha => ?_
      by_cases heq : a = nAtom
      · rw [heq, hget] at ha
        cases ha
        exact hold
      · exact hkey a n c (by rw [OrderedDict.get?_insert, if_neg heq, ha])
    rw [ledger_concat, ledgerStep]
    split
    next => rw [hzero]
    next => exact hzero

theorem Inv.addAtom (h : Inv r s) (text : PyStr) : Inv r (step r s (.addAtom text)) := by
  unfold step AtomTable.call AtomTable.addAtom
  simp only
  split
  next hnil =>
    refine h.skip fun key l => ?_
    rw [ledgerStep, if_neg fun hn => hn.1.1 hnil]
  next hne =>
    cases hint : r.integerAtom text with
    | error e => exact h.skip fun _ _ => rfl
    | ok n =>
      cases n with
      | some n =>
        refine h.skip fun key l => ?_
        have hnot : ¬Named r text := fun hn => by simp [hn.2] at hint
        rw [ledgerStep, if_neg fun hn => hnot hn.1]
      | none =>
        have hnamed : Named r text := ⟨hne, hint⟩
        simp only [addLocalAtom]
        cases hget : s.table.getLocalAtom r text with
        | none => exact h.add_new hnamed hget rfl
        | some p =>
          obtain ⟨atom, cnt⟩ := p
          obtain ⟨name, hname, hlower⟩ := getLocalAtom_some hget
          simp only [hname, Option.elim_some]
          exact h.add_known hnamed hname hlower rfl

theorem Inv.deleteAtom (h : Inv r s) (nAtom : Nat) : Inv r (step r s (.deleteAtom nAtom)) := by
  unfold step AtomTable.call AtomTable.deleteAtom deleteLocalAtom
  simp only
  cases hget : s.table.localAtomTable.get? nAtom with
  | none =>
    split
    next => exact h.delete_unknown hget _
    next => exact h.delete_unknown hget _
  | some p =>
    obtain ⟨name, cnt⟩ := p
    have hrange := h.range nAtom name cnt hget
    have hreserved : ¬nAtom < atomReserved := by
      unfold atomReserved
      omega
    rw [if_neg hreserved]
    by_cases hcnt : cnt - 1 = 0
    · simp only [hcnt, if_true]
      exact h.delete_last hget hcnt _
    · simp only [hcnt, if_false, if_true]
      exact h.delete_more hget hcnt _

theorem Inv.step (h : Inv r s) (op : AtomOp) : Inv r (step r s op) := by
  cases op with
  | addAtom text => exact h.addAtom text
  | findAtom text => exact h.skip fun _ _ => rfl
  | getAtomName cw nAtom nSize => exact h.skip fun _ _ => rfl
  | deleteAtom nAtom => exact h.deleteAtom nAtom

/-- A text is present exactly when an entry has its lower case. -/
theorem Inv.present_iff (h : Inv r s) {text : PyStr} (hnamed : Named r text) :
    s.Present r text ↔ ∃ a n c, s.table.localAtomTable.get? a = some (n, c) ∧ r.str n = r.str text := by
  constructor
  · rintro ⟨-, hpos⟩
    by_contra hnone
    have hzero := h.absent (r.str text) fun a n c hget heq => hnone ⟨a, n, c, hget, heq⟩
    omega
  · rintro ⟨a, n, c, hget, heq⟩
    refine ⟨hnamed, ?_⟩
    rw [← heq, (h.present a n c hget).1]
    exact (h.present a n c hget).2

/-- Texts that are present have the same atom exactly when they are equal in lower case. -/
theorem Inv.atoms (h : Inv r s) {a b : PyStr} (ha : s.Present r a) (hb : s.Present r b) :
    (ledger r (r.str a) s.trace).2 = (ledger r (r.str b) s.trace).2 ↔ r.str a = r.str b := by
  obtain ⟨x, m, c, hx, hm⟩ := (h.present_iff ha.1).mp ha
  obtain ⟨y, n, d, hy, hn⟩ := (h.present_iff hb.1).mp hb
  rw [← hm, ← hn, (h.present x m c hx).1, (h.present y n d hy).1]
  constructor
  · intro heq
    have hsame : x = y := by
      simp only at heq
      omega
    rw [hsame, hy] at hx
    cases hx
    rfl
  · intro heq
    rw [h.atom_eq hx hy heq]

end AtomSession

end Speakeasy
