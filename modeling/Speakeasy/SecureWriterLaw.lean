import Speakeasy.PathWriters

namespace Speakeasy

open ByteMemory

variable {m : ByteMemory} {fuel width path : Nat} {us : List Nat} {buffers : List (Nat × Nat)}

/-- Each buffer that is asked for has room for its part. -/
def HaveRoom (buffers : List (Nat × Nat)) (parts : List (List Nat)) : Prop :=
  ∀ b ∈ buffers.zip parts, b.1.1 ≠ 0 → b.2.length < b.1.2

/-- A path that starts with a surrogate pair and a colon. -/
def StartsWithPairDrive (us : List Nat) : Prop :=
  ∃ h l rest, us = h :: l :: 0x3A :: rest ∧ isHighSurrogate h ∧ isLowSurrogate l

theorem splitName_length (name : List Nat) : (splitName name).length = 2 := by
  unfold splitName
  split
  next => rfl
  next => rfl

theorem getSplitPath_length (us : List Nat) : (getSplitPath us).length = 4 := by
  have hname : ∀ rest, (splitRest rest).length = 3 := fun rest => congrArg (· + 1) (splitName_length _)
  exact congrArg (· + 1) (hname _)

theorem splitRest_shape (rest : List Nat) : ∃ d n e, splitRest rest = [d, n, e] := by
  unfold splitRest splitName
  split
  next => exact ⟨_, _, _, rfl⟩
  next => exact ⟨_, _, _, rfl⟩

/-- Behind a text with no separator and no dot the last separator and the last dot stay where they are. -/
theorem splitRest_behind {front rest d n e : List Nat} (hfront : ∀ x ∈ front, ¬IsSeparator x) (hdot : 0x2E ∉ front)
    (h : splitRest rest = [d, n, e]) :
    splitRest (front ++ rest) = if ∃ c ∈ rest, IsSeparator c then [front ++ d, n, e] else [[], front ++ n, e] := by
  rcases last_split IsSeparator rest with hnone | ⟨before, c, after, heq, hc, hafter⟩
  · have hno : ¬∃ c ∈ rest, IsSeparator c := fun ⟨c, hc, hs⟩ => hnone c hc hs
    have hall : ∀ x ∈ front ++ rest, ¬IsSeparator x := by
      intro x hx hs
      rcases List.mem_append.mp hx with hx | hx
      · exact hfront x hx hs
      · exact hnone x hx hs
    rw [if_neg hno, splitRest_free hall]
    rw [splitRest_free hnone] at h
    rcases last_split (· = 0x2E) rest with hdots | ⟨before, c, after, heq, rfl, hafter⟩
    · have hfree : 0x2E ∉ rest := fun hmem => hdots _ hmem rfl
      have hfree' : 0x2E ∉ front ++ rest := by
        intro hmem
        rcases List.mem_append.mp hmem with hmem | hmem
        · exact hdot hmem
        · exact hfree hmem
      rw [splitName_free hfree] at h
      injection h with _ h
      injection h with hn h
      injection h with he _
      rw [splitName_free hfree', hn, he]
    · have hfree : 0x2E ∉ after := fun hmem => hafter _ hmem rfl
      rw [heq, splitName_last before hfree] at h
      injection h with _ h
      injection h with hn h
      injection h with he _
      rw [heq, ← List.append_assoc, splitName_last _ hfree, hn, he]
  · have hyes : ∃ c ∈ rest, IsSeparator c := ⟨c, by rw [heq]; simp, hc⟩
    rw [if_pos hyes, heq, ← List.append_assoc, splitRest_last _ hc hafter, List.append_assoc]
    rw [heq, splitRest_last before hc hafter] at h
    injection h with hd hname
    rw [hd, hname]

theorem getSplitPath_drive (c : Nat) (rest : List Nat) :
    getSplitPath (c :: 0x3A :: rest) = [c, 0x3A] :: splitRest rest := rfl

theorem getSplitPath_no_drive (h : us[1]? ≠ some 0x3A) : getSplitPath us = [] :: splitRest us := by
  unfold getSplitPath
  simp only [if_neg h]
  rfl

theorem decodeText_colon (rest : List Nat) : decodeText 2 (0x3A :: rest) = 0x3A :: decodeText 2 rest :=
  wideCoding.dec_split [] 0x3A rest (Or.inr (Or.inr rfl))

theorem not_mark_of_surrogate {u : Nat} (h : isSurrogate u) : ¬IsMark u := fun hmark => mark_not_surrogate hmark h

/-- A narrow path is cut as its bytes are. -/
theorem getSplitPath_ansi (hus : ∀ u ∈ us, u < 0x100) :
    (getSplitPath (decodeText 1 us)).map (encodeText 1) = getSplitPath us := by
  have hrest := ansiCoding.splitRest_dec hus
  have hempty : (decodeText 1 us)[1]? ≠ some 0x3A → us[1]? ≠ some 0x3A →
      (getSplitPath (decodeText 1 us)).map (encodeText 1) = getSplitPath us := by
    intro hdec hself
    rw [getSplitPath_no_drive hdec, getSplitPath_no_drive hself, List.map_cons, hrest, encodeText_nil]
  match us, hus with
  | [], _ => exact hempty (fun h => nomatch h) (fun h => nomatch h)
  | [u], _ => exact hempty (fun h => nomatch h) (fun h => nomatch h)
  | u :: v :: rest, hus =>
    by_cases hv : v = 0x3A
    · have hback := ansiCoding.splitRest_dec fun x (hx : x ∈ rest) => hus x (by simp [hx])
      have hu := encodeAnsiChar_decode (hus u List.mem_cons_self)
      have hcolon : decodeAnsiChar 0x3A = 0x3A := by decide
      have hdec : decodeText 1 (u :: v :: rest) = decodeAnsiChar u :: 0x3A :: decodeText 1 rest := by
        show decodeAnsiChar u :: decodeAnsiChar v :: decodeText 1 rest = _
        rw [hv, hcolon]
      have hdrive : encodeText 1 [decodeAnsiChar u, 0x3A] = [u, 0x3A] := by
        show encodeAnsiChar (decodeAnsiChar u) :: encodeText 1 [0x3A] = [u, 0x3A]
        rw [hu, ansiCoding.enc_mark 0x3A (Or.inr (Or.inr rfl))]
      rw [hdec, hv, getSplitPath_drive, getSplitPath_drive, List.map_cons, hback, hdrive]
    · apply hempty
      · intro hcolon
        have hchar : decodeAnsiChar v = 0x3A := Option.some.inj hcolon
        have hmem := ansiCoding.mem_dec [v] 0x3A (Or.inr (Or.inr rfl)) (List.mem_singleton.mpr hchar.symm)
        exact hv (List.mem_singleton.mp hmem).symm
      · intro hcolon
        exact hv (Option.some.inj hcolon)

/-- A wide path is cut as its units are, but for a drive that is a surrogate pair. -/
theorem getSplitPath_wide (hus : ∀ u ∈ us, u < 0x10000) (h : ¬StartsWithPairDrive us) :
    (getSplitPath (decodeText 2 us)).map (encodeText 2) = getSplitPath us := by
  have hrest := wideCoding.splitRest_dec hus
  have hempty : (decodeText 2 us)[1]? ≠ some 0x3A → us[1]? ≠ some 0x3A →
      (getSplitPath (decodeText 2 us)).map (encodeText 2) = getSplitPath us := by
    intro hdec hself
    rw [getSplitPath_no_drive hdec, getSplitPath_no_drive hself, List.map_cons, hrest, encodeText_nil]
  match us, hus, h with
  | [], _, _ => exact hempty (fun h => nomatch h) (fun h => nomatch h)
  | [u], _, _ =>
    have hdec : decodeText 2 [u] = u :: decodeText 2 [] := decodeText_single (by simp)
    exact hempty (by rw [hdec]; exact fun h => nomatch h) (fun h => nomatch h)
  | u :: v :: rest, hus, h =>
    by_cases hpair : isHighSurrogate u ∧ isLowSurrogate v
    · have hdec := decodeText_pair rest hpair.1 hpair.2
      apply hempty
      · rw [hdec, List.getElem?_cons_succ, ← List.head?_eq_getElem?]
        intro hhead
        rw [wideCoding.dec_head? (fun x hx => hus x (by simp [hx])) (Or.inr (Or.inr rfl))] at hhead
        cases rest with
        | nil => cases hhead
        | cons w rest =>
          rw [List.head?_cons, Option.some.injEq] at hhead
          exact h ⟨u, v, rest, by rw [hhead], hpair.1, hpair.2⟩
      · intro hcolon
        have hv : v = 0x3A := by simpa using hcolon
        rw [hv] at hpair
        exact absurd hpair.2 (by decide)
    · have hno : ¬(isHighSurrogate u ∧ ∃ w ∈ (v :: rest).head?, isLowSurrogate w) := by
        rintro ⟨hhigh, w, hw, hlow⟩
        rw [List.head?_cons, Option.mem_some] at hw
        exact hpair ⟨hhigh, hw ▸ hlow⟩
      have hdec := decodeText_single hno
      by_cases hv : v = 0x3A
      · have hrest := wideCoding.splitRest_dec fun x (hx : x ∈ rest) => hus x (by simp [hx])
        have hdrive := (@drivePart_single u (v :: rest) (hus u List.mem_cons_self) hno).2
        rw [hdec, hv, decodeText_colon, getSplitPath_drive, getSplitPath_drive, List.map_cons, hrest, hdrive]
      · apply hempty
        · rw [hdec, List.getElem?_cons_succ, ← List.head?_eq_getElem?]
          intro hhead
          rw [wideCoding.dec_head? (fun x hx => hus x (List.mem_cons_of_mem _ hx)) (Or.inr (Or.inr rfl)),
            List.head?_cons, Option.some.injEq] at hhead
          exact hv hhead
        · intro hcolon
          exact hv (by simpa using hcolon)

/-- Which part of a wide path with such a drive holds the pair, by its units, and which by its characters. -/
theorem getSplitPath_pairDrive (hus : ∀ u ∈ us, u < 0x10000) (h : StartsWithPairDrive us) :
    (∀ i, Asked buffers i → ((getSplitPath (decodeText 2 us)).map (encodeText 2))[i]? = (getSplitPath us)[i]?) ↔
      ¬Asked buffers 0 ∧ ¬Asked buffers (if ∃ c ∈ us, IsSeparator c then 1 else 2) := by
  obtain ⟨hi, lo, rest, rfl, hhigh, hlow⟩ := h
  obtain ⟨d, n, e, hshape⟩ := splitRest_shape rest
  have hok : ∀ u ∈ rest, u < 0x10000 := fun u hu => hus u (by simp [hu])
  have hfront : ∀ x ∈ [hi, lo, 0x3A], ¬IsSeparator x := by
    intro x hx hs
    rcases List.mem_cons.mp hx with rfl | hx
    · exact not_mark_of_surrogate (isSurrogate_of_high hhigh) (Or.inl hs)
    · rcases List.mem_cons.mp hx with rfl | hx
      · exact not_mark_of_surrogate (isSurrogate_of_low hlow) (Or.inl hs)
      · rw [List.mem_singleton.mp hx] at hs
        exact absurd hs (by decide)
  have hseps : (∃ c ∈ hi :: lo :: 0x3A :: rest, IsSeparator c) ↔ ∃ c ∈ rest, IsSeparator c := by
    constructor
    · rintro ⟨c, hc, hs⟩
      have hsplit : c ∈ [hi, lo, 0x3A] ++ rest := hc
      rcases List.mem_append.mp hsplit with hin | hin
      · exact absurd hs (hfront c hin)
      · exact ⟨c, hin, hs⟩
    · rintro ⟨c, hc, hs⟩
      exact ⟨c, by simp [hc], hs⟩
  have hdots : 0x2E ∉ [hi, lo, 0x3A] := by
    intro hmem
    rcases List.mem_cons.mp hmem with heq | hmem
    · exact not_mark_of_surrogate (isSurrogate_of_high hhigh) (Or.inr (Or.inl heq.symm))
    · rcases List.mem_cons.mp hmem with heq | hmem
      · exact not_mark_of_surrogate (isSurrogate_of_low hlow) (Or.inr (Or.inl heq.symm))
      · exact absurd (List.mem_singleton.mp hmem) (by decide)
  obtain ⟨x, hdec⟩ : ∃ x, decodeText 2 (hi :: lo :: 0x3A :: rest) = x :: 0x3A :: decodeText 2 rest ∧
      encodeText 2 [x, 0x3A] = [hi, lo, 0x3A] := by
    have hpair := decodeText_pair (0x3A :: rest) hhigh hlow
    have henc := encodeText_pair hhigh hlow
    generalize (UnitGroup.pair hi lo).char id = x at hpair henc
    have hjoin := wideCoding.enc_append [x] [0x3A]
    rw [henc, wideCoding.enc_mark 0x3A (Or.inr (Or.inr rfl))] at hjoin
    exact ⟨x, by rw [hpair, decodeText_colon], hjoin⟩
  have hleft : (getSplitPath (decodeText 2 (hi :: lo :: 0x3A :: rest))).map (encodeText 2) =
      [hi, lo, 0x3A] :: [d, n, e] := by
    rw [hdec.1, getSplitPath_drive, List.map_cons, hdec.2, wideCoding.splitRest_dec hok, hshape]
  have hnone : (hi :: lo :: 0x3A :: rest)[1]? ≠ some 0x3A := by
    intro hcolon
    have hlo : lo = 0x3A := by simpa using hcolon
    rw [hlo] at hlow
    exact absurd hlow (by decide)
  have hright : getSplitPath (hi :: lo :: 0x3A :: rest) =
      [] :: if ∃ c ∈ rest, IsSeparator c then [[hi, lo, 0x3A] ++ d, n, e] else [[], [hi, lo, 0x3A] ++ n, e] := by
    rw [getSplitPath_no_drive hnone]
    exact congrArg ([] :: ·) (splitRest_behind hfront hdots hshape)
  rw [hleft, hright]
  simp only [hseps]
  have hlonger : ∀ t : List Nat, t ≠ [hi, lo, 0x3A] ++ t := by
    intro t heq
    have hlength := congrArg List.length heq
    rw [List.length_append] at hlength
    have hthree : [hi, lo, 0x3A].length = 3 := rfl
    omega
  by_cases hsep : ∃ c ∈ rest, IsSeparator c
  · rw [if_pos hsep, if_pos hsep]
    constructor
    · intro hall
      refine ⟨fun hasked => ?_, fun hasked => ?_⟩
      · have hzero := hall 0 hasked
        simp at hzero
      · have hone := hall 1 hasked
        simp only [List.getElem?_cons_succ, List.getElem?_cons_zero, Option.some.injEq] at hone
        exact hlonger d hone
    · rintro ⟨hzero, hone⟩ i hasked
      match i with
      | 0 => exact absurd hasked hzero
      | 1 => exact absurd hasked hone
      | i + 2 => rfl
  · have hd : d = [] := by
      have hfree : ∀ x ∈ rest, ¬IsSeparator x := fun x hx hs => hsep ⟨x, hx, hs⟩
      rw [splitRest_free hfree] at hshape
      injection hshape with hd _
      exact hd.symm
    rw [if_neg hsep, if_neg hsep, hd]
    constructor
    · intro hall
      refine ⟨fun hasked => ?_, fun hasked => ?_⟩
      · have hzero := hall 0 hasked
        simp at hzero
      · have htwo := hall 2 hasked
        simp only [List.getElem?_cons_succ, List.getElem?_cons_zero, Option.some.injEq] at htwo
        exact hlonger n htwo
    · rintro ⟨hzero, htwo⟩ i hasked
      match i with
      | 0 => exact absurd hasked hzero
      | 1 => rfl
      | 2 => exact absurd hasked htwo
      | i + 3 => rfl

/-- Each buffer has an address when it has a size. -/
def WellGiven (buffers : List (Nat × Nat)) : Prop := ∀ b ∈ buffers, (b.1 = 0 ↔ b.2 = 0)

theorem asked_cons_zero (b : Nat × Nat) (bs : List (Nat × Nat)) : Asked (b :: bs) 0 ↔ b.1 ≠ 0 := by
  constructor
  · rintro ⟨c, hc, hne⟩
    rw [List.getElem?_cons_zero, Option.some.injEq] at hc
    rwa [hc]
  · intro hne
    exact ⟨b, rfl, hne⟩

theorem asked_cons_succ (b : Nat × Nat) (bs : List (Nat × Nat)) (i : Nat) : Asked (b :: bs) (i + 1) ↔ Asked bs i := by
  unfold Asked
  rw [List.getElem?_cons_succ]

/-- The texts that are written are the parts when each part that is asked for is. -/
theorem written_parts_iff (enc : List Nat → List Nat) (buffers : List (Nat × Nat)) {ps qs : List (List Nat)}
    (hlen : ps.length = qs.length) :
    (((buffers.zip ps).filter fun b => b.1.1 ≠ 0).map fun b => (b.1.1, enc b.2 ++ [0])) =
        (((buffers.zip qs).filter fun b => b.1.1 ≠ 0).map fun b => (b.1.1, b.2 ++ [0])) ↔
      ∀ i, Asked buffers i → (ps.map enc)[i]? = qs[i]? := by
  induction buffers generalizing ps qs with
  | nil =>
    refine iff_of_true rfl ?_
    rintro i ⟨b, hb, -⟩
    cases hb
  | cons b bs ih =>
    cases ps with
    | nil =>
      cases qs with
      | nil => exact iff_of_true rfl fun i _ => rfl
      | cons q qs => cases hlen
    | cons p ps =>
      cases qs with
      | nil => cases hlen
      | cons q qs =>
        have hrest := ih (Nat.succ.inj hlen)
        rw [List.zip_cons_cons, List.zip_cons_cons]
        by_cases hb : b.1 = 0
        · rw [List.filter_cons_of_neg (by simpa using hb), List.filter_cons_of_neg (by simpa using hb), hrest]
          constructor
          · intro hall i hasked
            cases i with
            | zero => exact absurd hb ((asked_cons_zero b bs).mp hasked)
            | succ i => exact hall i ((asked_cons_succ b bs i).mp hasked)
          · intro hall i hasked
            exact hall (i + 1) ((asked_cons_succ b bs i).mpr hasked)
        · rw [List.filter_cons_of_pos (by simpa using hb), List.filter_cons_of_pos (by simpa using hb), List.map_cons,
            List.map_cons, List.cons.injEq, hrest, Prod.mk.injEq, List.append_left_inj, and_iff_right rfl]
          constructor
          · rintro ⟨hhead, hall⟩ i hasked
            cases i with
            | zero => exact congrArg some hhead
            | succ i => exact hall i ((asked_cons_succ b bs i).mp hasked)
          · intro hall
            refine ⟨?_, fun i hasked => hall (i + 1) ((asked_cons_succ b bs i).mpr hasked)⟩
            have hzero := hall 0 ((asked_cons_zero b bs).mpr hb)
            exact Option.some.inj hzero

theorem splitsInside_cleared {rv : Nat} (hrv : rv ≠ 0) (parts : List (List Nat)) :
    SplitsInside buffers parts
      ⟨rv, (buffers.filter fun b => b.1 ≠ 0 ∧ b.2 ≠ 0).map fun b => (b.1, [0])⟩ where
  inside w hw := by
    obtain ⟨b, hb, rfl⟩ := List.mem_map.mp hw
    obtain ⟨hmem, hne⟩ := List.mem_filter.mp hb
    rw [decide_eq_true_eq] at hne
    exact ⟨b, hmem, rfl, Nat.pos_of_ne_zero hne.2⟩
  copied h := absurd h hrv
  fits h := absurd h hrv
  emptied _ := rfl

theorem splitsInside_written_iff {parts parts' : List (List Nat)} (enc : List Nat → List Nat)
    (hlen : parts'.length = parts.length) :
    SplitsInside buffers parts
        ⟨0, ((buffers.zip parts').filter fun b => b.1.1 ≠ 0).map fun b => (b.1.1, enc b.2 ++ [0])⟩ ↔
      HaveRoom buffers parts ∧ ∀ i, Asked buffers i → (parts'.map enc)[i]? = parts[i]? := by
  rw [← written_parts_iff enc buffers hlen]
  constructor
  · intro h
    exact ⟨h.fits rfl, h.copied rfl⟩
  · rintro ⟨hroom, hsame⟩
    refine ⟨?_, fun _ => hsame, fun _ => hroom, fun h => absurd h.symm erange_values.1⟩
    intro w hw
    have hw' : w ∈ ((buffers.zip parts).filter fun b => b.1.1 ≠ 0).map fun b => (b.1.1, b.2 ++ [0]) := hsame ▸ hw
    obtain ⟨b, hb, rfl⟩ := List.mem_map.mp hw'
    obtain ⟨hmem, hne⟩ := List.mem_filter.mp hb
    rw [decide_eq_true_eq] at hne
    refine ⟨b.1, (List.of_mem_zip hmem).1, rfl, ?_⟩
    have hfit := hroom b hmem hne
    rw [List.length_append, List.length_singleton]
    omega

/-- `split_path_s` with the texts of one width. -/
theorem splitPathS_splitsInside_iff {text : Option (List Nat)} (hpath : m.HoldsPart width path text)
    (hfuel : (text.getD []).length < fuel)
    (hchars : ∀ part, pathPartChars width part = encodeText width part ++ [0]) (buffers : List (Nat × Nat)) :
    ∃ o, m.splitPathS fuel width path buffers = some o ∧
      (SplitsInside buffers (getSplitPath (text.getD [])) o ↔
        (text ≠ none → WellGiven buffers → HaveRoom buffers (getSplitPath (decodeText width (text.getD []))) →
          HaveRoom buffers (getSplitPath (text.getD [])) ∧
            ∀ i, Asked buffers i →
              ((getSplitPath (decodeText width (text.getD []))).map (encodeText width))[i]? =
                (getSplitPath (text.getD []))[i]?)) := by
  have hclear : pathPartChars width [] = [0] := by rw [hchars, encodeText_nil, List.nil_append]
  unfold splitPathS
  simp only [readPathPart_eq hpath hfuel, Option.map_some, hclear]
  cases text with
  | none =>
    exact ⟨_, rfl, iff_of_true (splitsInside_cleared einval_values.1 _) fun h => absurd rfl h⟩
  | some us =>
    simp only [Option.map_some, Option.getD_some, hchars]
    by_cases hgiven : ∃ b ∈ buffers, ¬(b.1 = 0 ↔ b.2 = 0)
    · refine ⟨_, congrArg some (if_pos hgiven), iff_of_true (splitsInside_cleared einval_values.1 _) ?_⟩
      intro _ hwell
      obtain ⟨b, hb, hno⟩ := hgiven
      exact absurd (hwell b hb) hno
    · rw [if_neg hgiven]
      have hwell : WellGiven buffers := by
        intro b hb
        by_contra hno
        exact hgiven ⟨b, hb, hno⟩
      by_cases htight : ∃ b ∈ buffers.zip (getSplitPath (decodeText width us)), b.1.1 ≠ 0 ∧ b.1.2 ≤ b.2.length
      · refine ⟨_, congrArg some (if_pos htight), iff_of_true (splitsInside_cleared erange_values.1 _) ?_⟩
        intro _ _ hroom
        obtain ⟨b, hb, hne, hle⟩ := htight
        have hlt := hroom b hb hne
        omega
      · have hroom : HaveRoom buffers (getSplitPath (decodeText width us)) := by
          intro b hb hne
          by_contra hlt
          exact htight ⟨b, hb, hne, by omega⟩
        refine ⟨_, congrArg some (if_neg htight), ?_⟩
        rw [splitsInside_written_iff _ ((getSplitPath_length _).trans (getSplitPath_length _).symm)]
        constructor
        · intro hgood _ _ _
          exact hgood
        · intro hgood
          exact hgood (Option.some_ne_none us) hwell hroom

theorem splitpathS_splitsInside {text : Option (List Nat)} (hpath : m.HoldsPart 1 path text)
    (hfuel : (text.getD []).length < fuel) (buffers : List (Nat × Nat)) :
    ∃ o, m.splitpathS fuel path buffers = some o ∧ SplitsInside buffers (getSplitPath (text.getD [])) o := by
  obtain ⟨o, ho, hiff⟩ := splitPathS_splitsInside_iff hpath hfuel pathPartChars_one buffers
  refine ⟨o, ho, hiff.mpr ?_⟩
  intro _ _ hroom
  have hok : ∀ u ∈ text.getD [], u < 0x100 := fun u hu => (hpath.chars u hu).2
  have hparts := getSplitPath_ansi hok
  refine ⟨?_, fun i _ => by rw [hparts]⟩
  have hlength : ∀ {bs : List (Nat × Nat)} {ps : List (List Nat)},
      HaveRoom bs ps → HaveRoom bs (ps.map (encodeText 1)) := by
    intro bs ps h b hb hne
    rw [List.zip_map_right, List.mem_map] at hb
    obtain ⟨⟨c, p⟩, hc, rfl⟩ := hb
    have hlt := h (c, p) hc hne
    show (encodeText 1 p).length < c.2
    rwa [encodeText, if_pos rfl, List.length_map]
  rw [← hparts]
  exact hlength hroom

theorem wsplitpathS_splitsInside_iff {text : Option (List Nat)} (hpath : m.HoldsPart 2 path text)
    (hfuel : (text.getD []).length < fuel) (buffers : List (Nat × Nat)) :
    ∃ o, m.wsplitpathS fuel path buffers = some o ∧
      (SplitsInside buffers (getSplitPath (text.getD [])) o ↔
        (text ≠ none → WellGiven buffers → HaveRoom buffers (getSplitPath (decodeUnits id (text.getD []))) →
          HaveRoom buffers (getSplitPath (text.getD [])) ∧
            (StartsWithPairDrive (text.getD []) →
              ¬Asked buffers 0 ∧ ¬Asked buffers (if ∃ c ∈ text.getD [], IsSeparator c then 1 else 2)))) := by
  obtain ⟨o, ho, hiff⟩ := splitPathS_splitsInside_iff hpath hfuel pathPartChars_two buffers
  have hok : ∀ u ∈ text.getD [], u < 0x10000 := fun u hu => (hpath.chars u hu).2
  refine ⟨o, ho, hiff.trans ?_⟩
  apply imp_congr_right
  intro _
  apply imp_congr_right
  intro _
  apply imp_congr_right
  intro _
  apply and_congr_right
  intro _
  by_cases hdrive : StartsWithPairDrive (text.getD [])
  · rw [getSplitPath_pairDrive hok hdrive]
    exact ⟨fun h _ => h, fun h => h hdrive⟩
  · exact iff_of_true (fun i _ => by rw [getSplitPath_wide hok hdrive]) fun h => absurd h hdrive

/-- Which of the bounded writers stay in bounds, of narrow texts `s` and `t` and of wide texts `us` and `vs`, and of the
parts of a path. -/
theorem secureWriters_law (arch : Arch) {s t us vs : List Nat} {dest src wdest wsrc : Nat}
    {drive directory fname ext wdrive wdirectory wfname wext : Option (List Nat)}
    {driveAt directoryAt fnameAt extAt wdriveAt wdirectoryAt wfnameAt wextAt : Nat}
    (ht : m.HoldsString 1 dest t) (hs : m.HoldsString 1 src s) (hvs : m.HoldsString 2 wdest vs)
    (hus : m.HoldsString 2 wsrc us)
    (hparts : m.HoldsPart 1 driveAt drive ∧ m.HoldsPart 1 directoryAt directory ∧ m.HoldsPart 1 fnameAt fname ∧
      m.HoldsPart 1 extAt ext)
    (hwparts : m.HoldsPart 2 wdriveAt wdrive ∧ m.HoldsPart 2 wdirectoryAt wdirectory ∧ m.HoldsPart 2 wfnameAt wfname ∧
      m.HoldsPart 2 wextAt wext)
    (hfuel : ∀ text ∈ [s, t, us, vs, drive.getD [], directory.getD [], fname.getD [], ext.getD [], wdrive.getD [],
      wdirectory.getD [], wfname.getD [], wext.getD []], text.length < fuel)
    (n count : Nat) (buffers : List (Nat × Nat)) :
    (∃ o, m.strcpyS fuel dest n src = some o ∧ StaysInside m 1 dest n 0 s o) ∧
      (∃ o, m.wcscpyS fuel wdest n wsrc = some o ∧
        (StaysInside m 2 wdest n 0 us o ↔
          (wdest ≠ 0 → wsrc ≠ 0 → us.length - pairCount us < n → us.length < n ∧ ¬HasUnpaired us))) ∧
      (∃ o, strncpyS arch m fuel dest n src count = some o ∧
        StaysInside m 1 dest n 0 (s.take (count % (arch.getMaxInt + 1))) o) ∧
      (∃ o, wcsncpyS arch m fuel wdest n wsrc count = some o ∧
        (StaysInside m 2 wdest n 0 (us.take (count % (arch.getMaxInt + 1))) o ↔
          (wdest ≠ 0 → wsrc ≠ 0 → min us.length (count % (arch.getMaxInt + 1)) < n →
            ∀ i < count % (arch.getMaxInt + 1), ¬UnpairedAt us i))) ∧
      (∃ o, m.strcatS fuel dest n src = some o ∧ StaysInside m 1 dest n t.length s o) ∧
      (∃ o, m.wcscatS fuel wdest n wsrc = some o ∧
        (StaysInside m 2 wdest n vs.length us o ↔
          (wdest ≠ 0 → wsrc ≠ 0 → vs.length - pairCount vs + (us.length - pairCount us) < n →
            vs.length + us.length < n ∧ ¬HasUnpaired us)) ∧
        ((o.rv = 0 → (o.memory m 2).Holds wdest (charBytes 2 vs)) ↔
          (wdest ≠ 0 → wsrc ≠ 0 → vs.length - pairCount vs + (us.length - pairCount us) < n → ¬HasUnpaired vs))) ∧
      (∃ o, strncatS arch m fuel dest n src count = some o ∧
        StaysInside m 1 dest n t.length (appended arch count s) o) ∧
      (∃ o, wcsncatS arch m fuel wdest n wsrc count = some o ∧
        StaysInside m 2 wdest n vs.length (appended arch count us) o) ∧
      (∃ o, m.makepathS fuel path n driveAt directoryAt fnameAt extAt = some o ∧
        StaysInside m 1 path n 0 (getMadePath drive directory fname ext) o) ∧
      (∃ o, m.wmakepathS fuel path n wdriveAt wdirectoryAt wfnameAt wextAt = some o ∧
        (StaysInside m 2 path n 0 (getMadePath wdrive wdirectory wfname wext) o ↔
          (path ≠ 0 → n ≠ 0 →
            (getMadePath wdrive wdirectory wfname wext).length < n + partPairs wdirectory wfname wext →
            (getMadePath wdrive wdirectory wfname wext).length < n ∧ ¬StartsWithPair (wdrive.getD [])))) ∧
      (∃ o, m.splitpathS fuel driveAt buffers = some o ∧
        SplitsInside buffers (getSplitPath (drive.getD [])) o) ∧
      (∃ o, m.wsplitpathS fuel wdriveAt buffers = some o ∧
        (SplitsInside buffers (getSplitPath (wdrive.getD [])) o ↔
          (wdrive ≠ none → WellGiven buffers → HaveRoom buffers (getSplitPath (decodeUnits id (wdrive.getD []))) →
            HaveRoom buffers (getSplitPath (wdrive.getD [])) ∧
              (StartsWithPairDrive (wdrive.getD []) →
                ¬Asked buffers 0 ∧
                  ¬Asked buffers (if ∃ c ∈ wdrive.getD [], IsSeparator c then 1 else 2))))) := by
  have hlen : ∀ part ∈ [drive, directory, fname, ext], (part.getD []).length < fuel := by
    intro part hpart
    simp only [List.mem_cons, List.not_mem_nil, or_false] at hpart
    rcases hpart with rfl | rfl | rfl | rfl <;> exact hfuel _ (by simp)
  have hwlen : ∀ part ∈ [wdrive, wdirectory, wfname, wext], (part.getD []).length < fuel := by
    intro part hpart
    simp only [List.mem_cons, List.not_mem_nil, or_false] at hpart
    rcases hpart with rfl | rfl | rfl | rfl <;> exact hfuel _ (by simp)
  obtain ⟨hdrive, hdirectory, hfname, hext⟩ := hparts
  obtain ⟨hwdrive, hwdirectory, hwfname, hwext⟩ := hwparts
  refine ⟨strcpyS_staysInside hs (hfuel _ (by simp)) dest n,
    wcscpyS_staysInside_iff hus (hfuel _ (by simp)) wdest n,
    strncpyS_staysInside arch hs (hfuel _ (by simp)) dest n count,
    wcsncpyS_staysInside_iff arch hus (hfuel _ (by simp)) wdest n count,
    strcatS_staysInside ht hs (hfuel _ (by simp)) (hfuel _ (by simp)) n,
    wcscatS_staysInside_iff hvs hus (hfuel _ (by simp)) (hfuel _ (by simp)) n,
    appendNSecure_staysInside arch (by omega) ht hs (hfuel _ (by simp)) (hfuel _ (by simp)) n count,
    appendNSecure_staysInside arch (by omega) hvs hus (hfuel _ (by simp)) (hfuel _ (by simp)) n count,
    makepathS_staysInside hdrive hdirectory hfname hext hlen path n,
    wmakepathS_staysInside_iff hwdrive hwdirectory hwfname hwext hwlen path n,
    splitpathS_splitsInside hdrive (hlen _ (by simp)) buffers,
    wsplitpathS_splitsInside_iff hwdrive (hwlen _ (by simp)) buffers⟩

theorem secureWriters_law_pair :
    ∃ o, surrogateMemory.wcscpyS 8 0x2000 4 0x1000 = some o ∧
      (StaysInside surrogateMemory 2 0x2000 4 0 [0xD83D, 0xDE00, 0x41, 0xD800] o ↔
        (0x2000 ≠ 0 → 0x1000 ≠ 0 → 4 - pairCount [0xD83D, 0xDE00, 0x41, 0xD800] < 4 →
          4 < 4 ∧ ¬HasUnpaired [0xD83D, 0xDE00, 0x41, 0xD800])) :=
  (@secureWriters_law surrogateMemory 8 0 Arch.x86 [0x41] [] [0xD83D, 0xDE00, 0x41, 0xD800] [0x41] 0x5000 0x2000 0x2000
    0x1000 none none none none none none none none 0 0 0 0 0 0 0 0
    ⟨by unfold Holds; decide, by decide⟩ ⟨by unfold Holds; decide, by decide⟩ surrogateMemory_holds.2
    surrogateMemory_holds.1 ⟨rfl, rfl, rfl, rfl⟩ ⟨rfl, rfl, rfl, rfl⟩ (by decide) 4 0 []).2.1

/-- Five units in a buffer of four, of which the unpaired surrogate has changed. -/
theorem wcscpyS_overflows :
    surrogateMemory.HoldsString 2 0x1000 [0xD83D, 0xDE00, 0x41, 0xD800] ∧
      surrogateMemory.wcscpyS 8 0x3000 4 0x1000 = some ⟨0, [(0x3000, [0xD83D, 0xDE00, 0x41, 0xFFFD, 0])]⟩ ∧
      ¬StaysInside surrogateMemory 2 0x3000 4 0 [0xD83D, 0xDE00, 0x41, 0xD800]
        ⟨0, [(0x3000, [0xD83D, 0xDE00, 0x41, 0xFFFD, 0])]⟩ := by
  refine ⟨surrogateMemory_holds.1, by decide, ?_⟩
  intro h
  exact absurd (h.inside _ (List.mem_singleton.mpr rfl)).2 (by decide)

end Speakeasy
