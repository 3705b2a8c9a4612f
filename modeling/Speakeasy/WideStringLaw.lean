import Speakeasy.WideStrings
import Mathlib.Data.List.DropRight

namespace Speakeasy

open ByteMemory

/-- A search for the first unit `c` of `us`: no surrogate, no pair before it, and nothing before it that reads as U+FFFD. -/
def FindsFirst (us : List Nat) (c : Nat) : Prop :=
  (c ∈ us → ¬isSurrogate c ∧ pairCount (us.takeWhile (· ≠ c)) = 0) ∧
    (c = 0xFFFD → ¬HasUnpaired (us.takeWhile (· ≠ c)))

/-- The characters up to the last unpaired surrogate. -/
def unpairedReach (us : List Nat) : Nat := ((unitGroups us).reverse.dropWhile (!·.isUnpaired)).length

/-- A search for the last unit `c` of `us`. Each pair before it moves the character that is found to the left, and for
U+FFFD each character up to the last unpaired surrogate behind it moves it to the right. -/
def FindsLast (us : List Nat) (c : Nat) : Prop :=
  if c ∈ us then
    ¬isSurrogate c ∧ pairCount (us.rdropWhile (· ≠ c)).dropLast =
      if c = 0xFFFD then unpairedReach (us.rtakeWhile (· ≠ c)) else 0
  else c = 0xFFFD → ¬HasUnpaired us

section Searching

variable {c : Nat} {us : List Nat}

theorem replacement_not_surrogate : ¬isSurrogate 0xFFFD := by decide

theorem mem_decode_replace (hc : c < 0x10000) :
    c ∈ decodeUnits replace us ↔ (c ∈ us ∧ ¬isSurrogate c) ∨ (c = 0xFFFD ∧ HasUnpaired us) := by
  rw [mem_decodeUnits_iff hc, hasUnpaired_iff]
  apply or_congr_right
  constructor
  · rintro ⟨u, hu, hs, hbad⟩
    exact ⟨hbad.symm, u, hu, hs⟩
  · rintro ⟨heq, u, hu, hs⟩
    exact ⟨u, hu, hs, heq.symm⟩

theorem idxOf?_decodeUnits_iff (hc : c < 0x10000) :
    (decodeUnits replace us).idxOf? c = us.idxOf? c ↔ FindsFirst us c := by
  by_cases hmem : c ∈ us
  · obtain ⟨suf, hsplit, hnot⟩ := split_first hmem
    have hspec := idxOf?_takeWhile hmem
    unfold FindsFirst
    generalize us.takeWhile (· ≠ c) = pre at hsplit hnot hspec ⊢
    by_cases hs : isSurrogate c = true
    · have hnone : (decodeUnits replace us).idxOf? c = none := by
        rw [List.idxOf?_eq_none_iff, mem_decode_replace hc]
        rintro (⟨-, hns⟩ | ⟨rfl, -⟩)
        · exact hns hs
        · exact replacement_not_surrogate hs
      rw [hnone, hspec]
      simp [hmem, hs]
    · have hdecode : decodeUnits replace us = decodeUnits replace pre ++ c :: decodeUnits replace suf := by
        rw [hsplit, decodeUnits_split pre suf hs]
      have hlen := length_unitGroups pre
      by_cases hpre : c ∈ decodeUnits replace pre
      · have hunpaired := ((mem_decode_replace hc).mp hpre).resolve_left fun h => hnot h.1
        have hfound : (decodeUnits replace us).idxOf? c =
            some ((decodeUnits replace us).takeWhile (· ≠ c)).length :=
          idxOf?_takeWhile (by rw [hdecode]; exact List.mem_append_left _ hpre)
        have hlt : ((decodeUnits replace us).takeWhile (· ≠ c)).length < (decodeUnits replace pre).length := by
          obtain ⟨rest, hrest, -⟩ := split_first hpre
          have hsame : (decodeUnits replace us).takeWhile (· ≠ c) = (decodeUnits replace pre).takeWhile (· ≠ c) := by
            rw [hdecode, List.takeWhile_append, if_neg]
            intro heq
            have hlength := congrArg List.length hrest
            rw [List.length_append, heq, List.length_cons] at hlength
            omega
          have hlength := congrArg List.length hrest
          rw [List.length_append, List.length_cons] at hlength
          rw [hsame]
          omega
        rw [length_decodeUnits] at hlt
        rw [hfound, hspec]
        constructor
        · intro h
          injection h with h
          omega
        · intro h
          exact absurd hunpaired.2 (h.2 hunpaired.1)
      · have hclean : c = 0xFFFD → ¬HasUnpaired pre := fun heq hun =>
          hpre ((mem_decode_replace hc).mpr (Or.inr ⟨heq, hun⟩))
        rw [hdecode, idxOf?_split hpre, hspec, length_decodeUnits, Option.some.injEq]
        constructor
        · intro h
          exact ⟨fun _ => ⟨hs, by omega⟩, hclean⟩
        · intro h
          have hzero := (h.1 hmem).2
          omega
  · have htake : us.takeWhile (· ≠ c) = us := by
      rw [List.takeWhile_eq_self_iff]
      intro u hu
      have hne : u ≠ c := fun heq => hmem (heq ▸ hu)
      simpa using hne
    unfold FindsFirst
    rw [List.idxOf?_eq_none_iff.mpr hmem, List.idxOf?_eq_none_iff, mem_decode_replace hc, htake]
    constructor
    · intro h
      exact ⟨fun hin => absurd hin hmem, fun heq hun => h (Or.inr ⟨heq, hun⟩)⟩
    · rintro ⟨-, hclean⟩ (⟨hin, -⟩ | ⟨heq, hun⟩)
      · exact hmem hin
      · exact hclean heq hun

theorem split_last (h : c ∈ us) :
    us = (us.rdropWhile (· ≠ c)).dropLast ++ c :: us.rtakeWhile (· ≠ c) ∧ c ∉ us.rtakeWhile (· ≠ c) := by
  obtain ⟨suf, hsplit, hnot⟩ := split_first (List.mem_reverse.mpr h)
  have hdrop : us.reverse.dropWhile (· ≠ c) = c :: suf := by
    have hcut := List.takeWhile_append_dropWhile (p := (· ≠ c)) (l := us.reverse)
    exact List.append_cancel_left (hcut.trans hsplit)
  have htake : us.rtakeWhile (· ≠ c) = (us.reverse.takeWhile (· ≠ c)).reverse := rfl
  have hbefore : (us.rdropWhile (· ≠ c)).dropLast = suf.reverse := by
    rw [List.rdropWhile, hdrop, List.reverse_cons, List.dropLast_concat]
  rw [htake, hbefore]
  refine ⟨?_, by simpa using hnot⟩
  have hrev := congrArg List.reverse hsplit
  rw [List.reverse_reverse, List.reverse_append, List.reverse_cons] at hrev
  rw [List.append_cons]
  exact hrev

theorem dropWhile_length_congr {α β : Type} {xs : List α} {f : α → β} {p : β → Bool} {q : α → Bool}
    (h : ∀ x ∈ xs, p (f x) = q x) : ((xs.map f).dropWhile p).length = (xs.dropWhile q).length := by
  induction xs with
  | nil => rfl
  | cons x xs ih =>
    have hx := h x List.mem_cons_self
    have htail := ih fun y hy => h y (List.mem_cons_of_mem _ hy)
    rw [List.map_cons, List.dropWhile_cons, List.dropWhile_cons, hx]
    split
    next => exact htail
    next => rw [List.length_cons, List.length_cons, List.length_map]

/-- The run of a decoded text behind its last `c`, which is U+FFFD for unpaired surrogates alone. -/
theorem decodeUnits_reach (hc : c < 0x10000) (hnot : c ∉ us) :
    ((decodeUnits replace us).reverse.dropWhile (· ≠ c)).length = if c = 0xFFFD then unpairedReach us else 0 := by
  by_cases hrepl : c = 0xFFFD
  · rw [if_pos hrepl, unpairedReach, decodeUnits, ← List.map_reverse]
    apply dropWhile_length_congr
    intro g hg
    rw [List.mem_reverse] at hg
    cases g with
    | single u =>
      have hu : u ≠ c := fun heq => hnot (heq ▸ mem_of_single_mem hg)
      rw [UnitGroup.char_single]
      by_cases hs : isSurrogate u = true
      · rw [if_pos hs]
        simp [UnitGroup.isUnpaired, hs, replace, hrepl]
      · rw [if_neg hs]
        simp [UnitGroup.isUnpaired, hs, hu]
    | pair h l =>
      have hle := UnitGroup.le_char_pair replace h l
      have hne : (UnitGroup.pair h l).char replace ≠ c := by omega
      simp [UnitGroup.isUnpaired, hne]
  · rw [if_neg hrepl, dropWhile_eq_nil_of_not_mem]
    · rfl
    · rw [mem_decode_replace hc]
      rintro (⟨hin, -⟩ | ⟨heq, -⟩)
      · exact hnot hin
      · exact hrepl heq

theorem rfindChar_decodeUnits_iff (hc : c < 0x10000) :
    rfindChar c (decodeUnits replace us) = rfindChar c us ↔ FindsLast us c := by
  unfold FindsLast
  by_cases hmem : c ∈ us
  · rw [if_pos hmem]
    obtain ⟨hsplit, hnot⟩ := split_last hmem
    generalize (us.rdropWhile (· ≠ c)).dropLast = before at hsplit ⊢
    generalize us.rtakeWhile (· ≠ c) = after at hsplit hnot ⊢
    have hspec : rfindChar c us = some before.length := by
      rw [hsplit, rfindChar_split, dropWhile_eq_nil_of_not_mem hnot, List.length_nil, Nat.add_zero]
    by_cases hs : isSurrogate c = true
    · have hnone : rfindChar c (decodeUnits replace us) = none := by
        apply rfindChar_eq_none
        rw [mem_decode_replace hc]
        rintro (⟨-, hns⟩ | ⟨rfl, -⟩)
        · exact hns hs
        · exact replacement_not_surrogate hs
      rw [hnone, hspec]
      simp [hs]
    · have hlen := length_unitGroups before
      rw [hspec, hsplit, decodeUnits_split before after hs, rfindChar_split, decodeUnits_reach hc hnot,
        length_decodeUnits, Option.some.injEq]
      generalize (if c = 0xFFFD then unpairedReach after else 0) = reach
      constructor
      · intro h
        exact ⟨hs, by omega⟩
      · intro h
        have hpairs := h.2
        omega
  · rw [if_neg hmem, rfindChar_eq_none hmem]
    constructor
    · intro h heq hun
      obtain ⟨l, r, hsplit⟩ := List.append_of_mem ((mem_decode_replace hc).mpr (Or.inr ⟨heq, hun⟩))
      rw [hsplit, rfindChar_split] at h
      cases h
    · intro h
      apply rfindChar_eq_none
      rw [mem_decode_replace hc]
      rintro (⟨hin, -⟩ | ⟨heq, hun⟩)
      · exact hmem hin
      · exact h heq hun

end Searching

section Comparing

variable {us vs : List Nat}

/-- Two texts are ordered as two others. -/
def SameOrder (s1 s2 us vs : List Nat) : Prop := (s1 < s2 ↔ us < vs) ∧ (s2 < s1 ↔ vs < us)

instance (us : List Nat) (i : Nat) : Decidable (UnpairedAt us i) :=
  have hbad : ∀ u, isSurrogate u → u + 1 ≠ u := fun u _ => by omega
  decidable_of_iff (¬(rereadUnits (· + 1) us)[i]? = us[i]?) (not_iff_comm.mp (rereadUnits_getElem?_iff hbad us i).symm)

/-- The unit at an index, where 0 stands behind the end. -/
def unitAt (us : List Nat) (i : Nat) : Nat := us.getD i 0

/-- What a comparison reads at an index: U+FFFD for an unpaired surrogate, and the first half of a pair `lift` above
its place among the units. -/
def readingAt (lift : Nat) (us : List Nat) (i : Nat) : Nat :=
  if UnpairedAt us i then 0xFFFD
  else if isHighSurrogate (unitAt us i) then lift + unitAt us i
  else unitAt us i

/-- The first index at which two arrays are not the same. -/
def FirstApart (f g : Nat → Nat) (i : Nat) : Prop := (∀ j < i, f j = g j) ∧ f i ≠ g i

/-- A common first half of a pair stands before the index, and only one array has the second half there. -/
def SplitsPair (us vs : List Nat) (i : Nat) : Prop :=
  0 < i ∧ isHighSurrogate (unitAt us (i - 1)) ∧ isLowSurrogate (unitAt us i) ≠ isLowSurrogate (unitAt vs i)

instance (us vs : List Nat) (i : Nat) : Decidable (SplitsPair us vs i) := by
  unfold SplitsPair
  infer_instance

/-- A comparison keeps the order of the units at the first index where they differ. After a common first half, the
array with the second half is the smaller one if pairs rank among the units, and else the greater one. Units that
read as two numbers are in their order. Where both units read as U+FFFD, the first later index at which the arrays
read apart has their order. -/
def OrderKept (lift : Nat) (us vs : List Nat) : Prop :=
  ∀ i, FirstApart (unitAt us) (unitAt vs) i →
    if SplitsPair us vs i then
      if isLowSurrogate (unitAt us i) then unitAt us i < unitAt vs i ↔ lift = 0
      else unitAt vs i < unitAt us i ↔ lift = 0
    else if readingAt lift us i = readingAt lift vs i then
      ∃ j, FirstApart (readingAt lift us) (readingAt lift vs) j ∧
        (unitAt us i < unitAt vs i ↔ readingAt lift us j < readingAt lift vs j)
    else unitAt us i < unitAt vs i ↔ readingAt lift us i < readingAt lift vs i

def Before (f g : Nat → Nat) : Prop := ∃ i, (∀ j < i, f j = g j) ∧ f i < g i

theorem FirstApart.symm {f g : Nat → Nat} {i : Nat} (h : FirstApart f g i) : FirstApart g f i :=
  ⟨fun j hj => (h.1 j hj).symm, h.2.symm⟩

theorem FirstApart.before_iff {f g : Nat → Nat} {i : Nat} (h : FirstApart f g i) : Before f g ↔ f i < g i := by
  constructor
  · rintro ⟨k, hk, hlt⟩
    rcases Nat.lt_trichotomy k i with hki | rfl | hik
    · exact absurd (h.1 k hki) (Nat.ne_of_lt hlt)
    · exact hlt
    · exact absurd (hk i hik) h.2
  · exact fun hlt => ⟨i, h.1, hlt⟩

theorem exists_firstApart {f g : Nat → Nat} (h : f ≠ g) : ∃ i, FirstApart f g i := by
  obtain ⟨k, hk⟩ := Function.ne_iff.mp h
  induction k using Nat.strong_induction_on with
  | _ k ih =>
    by_cases hall : ∀ j < k, f j = g j
    · exact ⟨k, hall, hk⟩
    · push Not at hall
      obtain ⟨j, hj, hne⟩ := hall
      exact ih j hj hne

theorem not_before_self (f : Nat → Nat) : ¬Before f f := fun ⟨_, _, hlt⟩ => Nat.lt_irrefl _ hlt

/-- Texts without a zero are in the order of their units at the first index where they differ. -/
theorem lt_iff_before {xs ys : List Nat} (hxs : ∀ x ∈ xs, 0 < x) (hys : ∀ y ∈ ys, 0 < y) :
    xs < ys ↔ Before (unitAt xs) (unitAt ys) := by
  induction xs generalizing ys with
  | nil =>
    cases ys with
    | nil => exact iff_of_false (List.lt_irrefl _) (not_before_self _)
    | cons y ys =>
      refine iff_of_true (List.nil_lt_cons y ys) ⟨0, fun j hj => absurd hj (Nat.not_lt_zero j), ?_⟩
      exact hys y List.mem_cons_self
  | cons x xs ih =>
    cases ys with
    | nil =>
      refine iff_of_false (List.not_lt_nil _) ?_
      rintro ⟨i, -, hlt⟩
      exact Nat.not_lt_zero _ hlt
    | cons y ys =>
      have htail := @ih ys (fun w hw => hxs w (List.mem_cons_of_mem _ hw)) fun w hw => hys w (List.mem_cons_of_mem _ hw)
      rw [List.cons_lt_cons_iff, htail]
      constructor
      · rintro (hlt | ⟨rfl, i, hsame, hlt⟩)
        · exact ⟨0, fun j hj => absurd hj (Nat.not_lt_zero j), hlt⟩
        · refine ⟨i + 1, fun j hj => ?_, hlt⟩
          cases j with
          | zero => rfl
          | succ j => exact hsame j (by omega)
      · rintro ⟨i, hsame, hlt⟩
        cases i with
        | zero => exact Or.inl hlt
        | succ i => exact Or.inr ⟨hsame 0 (Nat.succ_pos i), i, fun j hj => hsame (j + 1) (by omega), hlt⟩

theorem text_ext {xs ys : List Nat} (hxs : ∀ x ∈ xs, 0 < x) (hys : ∀ y ∈ ys, 0 < y)
    (h : ∀ i, unitAt xs i = unitAt ys i) : xs = ys := by
  have hsame : unitAt xs = unitAt ys := funext h
  apply List.le_antisymm
  · rw [← List.not_lt, lt_iff_before hys hxs, hsame]
    exact not_before_self _
  · rw [← List.not_lt, lt_iff_before hxs hys, hsame]
    exact not_before_self _

/-- The units of a group as a comparison reads them. -/
def UnitGroup.readings (lift : Nat) : UnitGroup → List Nat
  | single u => [if isSurrogate u then 0xFFFD else u]
  | pair h l => [lift + h, l]

def readings (lift : Nat) (us : List Nat) : List Nat := (unitGroups us).flatMap (UnitGroup.readings lift)

theorem readings_zero (us : List Nat) : readings 0 us = rereadUnits replace us := by
  apply List.flatMap_congr
  intro g _
  cases g with
  | single u => rfl
  | pair h l => exact congrArg (fun x => [x, l]) (Nat.zero_add h)

theorem readings_pos {lift : Nat} (hus : ∀ u ∈ us, 0 < u) : ∀ r ∈ readings lift us, 0 < r := by
  intro r hr
  obtain ⟨g, hg, hmem⟩ := List.mem_flatMap.mp hr
  rcases mem_unitGroups hg with ⟨u, hu, rfl⟩ | ⟨h, hh, l, hl, -, -, rfl⟩
  · rw [UnitGroup.readings, List.mem_singleton] at hmem
    rw [hmem]
    split
    next => decide
    next => exact hus u hu
  · rw [UnitGroup.readings, List.mem_cons, List.mem_singleton] at hmem
    rcases hmem with rfl | rfl
    · exact Nat.add_pos_right _ (hus h hh)
    · exact hus r hl

theorem readingAt_single {lift u : Nat} (h : ¬(isHighSurrogate u ∧ ∃ v ∈ us.head?, isLowSurrogate v)) :
    readingAt lift (u :: us) 0 = (if isSurrogate u then 0xFFFD else u) ∧
      ∀ i, readingAt lift (u :: us) (i + 1) = readingAt lift us i := by
  constructor
  · unfold readingAt
    simp only [unpairedAt_zero h]
    by_cases hs : isSurrogate u = true
    · rw [if_pos hs, if_pos hs]
    · have hhigh : ¬isHighSurrogate (unitAt (u :: us) 0) = true := fun hu => hs (isSurrogate_of_high hu)
      rw [if_neg hs, if_neg hs, if_neg hhigh]
      rfl
  · intro i
    unfold readingAt
    simp only [unpairedAt_cons h]
    rfl

theorem readingAt_nil (lift i : Nat) : readingAt lift [] i = 0 := by
  have hno : ¬UnpairedAt [] i := by
    rintro ⟨u, hu, -⟩
    cases hu
  rw [readingAt, if_neg hno]
  rfl

theorem unitAt_readings (lift : Nat) (us : List Nat) (i : Nat) : unitAt (readings lift us) i = readingAt lift us i := by
  induction us using unitGroups.induct generalizing i with
  | case1 =>
    rw [readingAt_nil]
    rfl
  | case2 u =>
    have hno : ¬(isHighSurrogate u ∧ ∃ v ∈ ([] : List Nat).head?, isLowSurrogate v) := by
      rintro ⟨-, v, hv, -⟩
      cases hv
    obtain ⟨hzero, hsucc⟩ := @readingAt_single [] lift u hno
    cases i with
    | zero =>
      rw [hzero]
      rfl
    | succ i =>
      rw [hsucc, readingAt_nil]
      rfl
  | case3 u v us hpair ih =>
    have hread : readings lift (u :: v :: us) = (lift + u) :: v :: readings lift us := by
      unfold readings
      rw [unitGroups_pair _ hpair.1 hpair.2]
      rfl
    have hlow : ¬isHighSurrogate v = true := fun hhigh => not_low_of_high hhigh hpair.2
    obtain ⟨hzero, hone, hrest⟩ := @not_unpairedAt_pair u v us hpair.1 hpair.2
    rw [hread]
    cases i with
    | zero =>
      rw [readingAt, if_neg hzero]
      exact (if_pos hpair.1).symm
    | succ i =>
      cases i with
      | zero =>
        rw [readingAt, if_neg hone]
        exact (if_neg hlow).symm
      | succ i =>
        have htail : readingAt lift (u :: v :: us) (i + 1 + 1) = readingAt lift us i := by
          unfold readingAt
          simp only [hrest]
          rfl
        rw [htail, ← ih]
        rfl
  | case4 u v us hpair ih =>
    have hno : ¬(isHighSurrogate u ∧ ∃ w ∈ (v :: us).head?, isLowSurrogate w) := by
      rintro ⟨hhigh, w, hw, hlow⟩
      rw [List.head?_cons, Option.mem_some] at hw
      exact hpair ⟨hhigh, hw ▸ hlow⟩
    have hread : readings lift (u :: v :: us) = (if isSurrogate u then 0xFFFD else u) :: readings lift (v :: us) := by
      unfold readings
      rw [unitGroups_single hno]
      rfl
    obtain ⟨hzero, hsucc⟩ := @readingAt_single (v :: us) lift u hno
    rw [hread]
    cases i with
    | zero =>
      rw [hzero]
      rfl
    | succ i =>
      rw [hsucc, ← ih]
      rfl

/-- A group of 16-bit units. -/
def UnitGroup.Wide : UnitGroup → Prop
  | single u => u < 0x10000
  | pair h l => isHighSurrogate h ∧ isLowSurrogate l

theorem unitGroups_wide (hus : ∀ u ∈ us, u < 0x10000) : ∀ g ∈ unitGroups us, g.Wide := by
  intro g hg
  rcases mem_unitGroups hg with ⟨u, hu, rfl⟩ | ⟨h, -, l, -, hhigh, hlow, rfl⟩
  · exact hus u hu
  · exact ⟨hhigh, hlow⟩

theorem UnitGroup.readings_lt_iff {g k : UnitGroup} {xs ys : List Nat} (hg : g.Wide) (hk : k.Wide) :
    g.readings 0x10000 ++ xs < k.readings 0x10000 ++ ys ↔
      g.char replace < k.char replace ∨ g.char replace = k.char replace ∧ xs < ys := by
  have hsingle : ∀ {u : Nat}, u < 0x10000 → (if isSurrogate u then 0xFFFD else u) < 0x10000 := by
    intro u hu
    split
    next => decide
    next => exact hu
  cases g with
  | single u =>
    have hu : (UnitGroup.single u).char replace < 0x10000 := hsingle hg
    cases k with
    | single v => exact List.cons_lt_cons_iff
    | pair h l =>
      have hle := UnitGroup.le_char_pair replace h l
      refine iff_of_true (List.cons_lt_cons_iff.mpr (Or.inl ?_)) (Or.inl (by omega))
      exact Nat.lt_of_lt_of_le (hsingle hg) (Nat.le_add_right _ _)
  | pair h l =>
    obtain ⟨hh, hl⟩ := hg
    have hle := UnitGroup.le_char_pair replace h l
    cases k with
    | single v =>
      have hv : (UnitGroup.single v).char replace < 0x10000 := hsingle hk
      refine iff_of_false ?_ (by omega)
      intro hlt
      have hfirst : (if isSurrogate v then 0xFFFD else v) < 0x10000 := hsingle hk
      rcases List.cons_lt_cons_iff.mp hlt with hlt | ⟨heq, -⟩
      · omega
      · omega
    | pair h' l' =>
      obtain ⟨hh', hl'⟩ := hk
      simp only [isHighSurrogate, isLowSurrogate, Bool.and_eq_true, decide_eq_true_eq] at hh hl hh' hl'
      rw [UnitGroup.char_pair, UnitGroup.char_pair]
      simp only [UnitGroup.readings, List.cons_append, List.nil_append, List.cons_lt_cons_iff]
      by_cases hxs : xs < ys
      · simp only [hxs, and_true]
        omega
      · simp only [hxs, and_false, or_false]
        omega

/-- Decoded texts are in the order of the units as they are read, where pairs rank above the units. -/
theorem decodeUnits_lt_iff (hus : ∀ u ∈ us, u < 0x10000) (hvs : ∀ v ∈ vs, v < 0x10000) :
    decodeUnits replace us < decodeUnits replace vs ↔ readings 0x10000 us < readings 0x10000 vs := by
  have hgroups : ∀ gs hs : List UnitGroup, (∀ g ∈ gs, g.Wide) → (∀ g ∈ hs, g.Wide) →
      (gs.map (UnitGroup.char replace) < hs.map (UnitGroup.char replace) ↔
        gs.flatMap (UnitGroup.readings 0x10000) < hs.flatMap (UnitGroup.readings 0x10000)) := by
    intro gs
    induction gs with
    | nil =>
      intro hs _ _
      cases hs with
      | nil => exact iff_of_false (List.lt_irrefl _) (List.lt_irrefl _)
      | cons g hs => cases g <;> exact iff_of_true (List.nil_lt_cons _ _) (List.nil_lt_cons _ _)
    | cons g gs ih =>
      intro hs hgs hhs
      cases hs with
      | nil => exact iff_of_false (List.not_lt_nil _) (List.not_lt_nil _)
      | cons k hs =>
        have htail := ih hs (fun x hx => hgs x (List.mem_cons_of_mem _ hx)) fun x hx => hhs x (List.mem_cons_of_mem _ hx)
        rw [List.map_cons, List.map_cons, List.flatMap_cons, List.flatMap_cons, List.cons_lt_cons_iff, htail]
        exact (UnitGroup.readings_lt_iff (hgs g List.mem_cons_self) (hhs k List.mem_cons_self)).symm
  exact hgroups _ _ (unitGroups_wide hus) (unitGroups_wide hvs)

/-- A pair that ranks elsewhere is told apart from the same units. -/
theorem readingAt_lift (lift : Nat) (us : List Nat) (i : Nat) :
    readingAt lift us i =
      if isHighSurrogate (readingAt 0 us i) then lift + readingAt 0 us i else readingAt 0 us i := by
  unfold readingAt
  split
  next => exact (if_neg (by decide)).symm
  next =>
    split
    next hhigh => rw [Nat.zero_add, if_pos hhigh]
    next => rfl

theorem decodeUnits_eq_iff (hus : ∀ u ∈ us, 0 < u ∧ u < 0x10000) (hvs : ∀ v ∈ vs, 0 < v ∧ v < 0x10000) :
    decodeUnits replace us = decodeUnits replace vs ↔ ∀ i, readingAt 0 us i = readingAt 0 vs i := by
  have hlt := fun u hu => (hus u hu).2
  have hlt' := fun v hv => (hvs v hv).2
  constructor
  · intro h i
    have hencode := congrArg encodeUnits h
    have hreplace : ∀ u, replace u < 0x10000 := fun u => (by decide : 0xFFFD < 0x10000)
    rw [encodeUnits_decodeUnits hlt fun _ _ => hreplace _, encodeUnits_decodeUnits hlt' fun _ _ => hreplace _,
      ← readings_zero, ← readings_zero] at hencode
    rw [← unitAt_readings, ← unitAt_readings, hencode]
  · intro h
    have hread : readings 0x10000 us = readings 0x10000 vs := by
      apply text_ext (readings_pos fun u hu => (hus u hu).1) (readings_pos fun v hv => (hvs v hv).1)
      intro i
      rw [unitAt_readings, unitAt_readings, readingAt_lift, h, ← readingAt_lift]
    apply List.le_antisymm
    · rw [← List.not_lt, decodeUnits_lt_iff hlt' hlt, hread]
      exact List.lt_irrefl _
    · rw [← List.not_lt, decodeUnits_lt_iff hlt hlt', hread]
      exact List.lt_irrefl _

theorem surrogateAt_iff {p : Nat → Bool} (hp : p 0 = false) (i : Nat) :
    (∃ u, us[i]? = some u ∧ p u) ↔ p (unitAt us i) := by
  rw [unitAt, List.getD_eq_getElem?_getD]
  cases us[i]? with
  | none => simp [hp]
  | some u => simp

theorem unpairedAt_iff (i : Nat) : UnpairedAt us i ↔ isSurrogate (unitAt us i) ∧
    ¬(isHighSurrogate (unitAt us i) ∧ isLowSurrogate (unitAt us (i + 1))) ∧
    ¬(isLowSurrogate (unitAt us i) ∧ 0 < i ∧ isHighSurrogate (unitAt us (i - 1))) := by
  have hnext := @surrogateAt_iff us isLowSurrogate rfl (i + 1)
  have hbefore : (∃ j v, i = j + 1 ∧ us[j]? = some v ∧ isHighSurrogate v) ↔
      0 < i ∧ isHighSurrogate (unitAt us (i - 1)) := by
    rw [← @surrogateAt_iff us isHighSurrogate rfl (i - 1)]
    constructor
    · rintro ⟨j, v, rfl, hv, hhigh⟩
      exact ⟨Nat.succ_pos j, v, hv, hhigh⟩
    · rintro ⟨hpos, v, hv, hhigh⟩
      exact ⟨i - 1, v, by omega, hv, hhigh⟩
  have hunit : unitAt us i = us[i]?.getD 0 := List.getD_eq_getElem?_getD
  unfold UnpairedAt
  rw [hnext, hbefore, hunit]
  cases us[i]? with
  | none =>
    have hzero : ¬isSurrogate 0 = true := by decide
    exact iff_of_false (fun ⟨_, hu, _⟩ => by cases hu) fun h => hzero h.1
  | some u =>
    constructor
    · rintro ⟨w, hw, hs, hfirst, hsecond⟩
      rw [← Option.some.inj hw] at hs hfirst hsecond
      exact ⟨hs, hfirst, hsecond⟩
    · rintro ⟨hs, hfirst, hsecond⟩
      exact ⟨u, rfl, hs, hfirst, hsecond⟩

theorem readingAt_congr {lift i : Nat} (hunit : unitAt us i = unitAt vs i)
    (hhalf : UnpairedAt us i ↔ UnpairedAt vs i) : readingAt lift us i = readingAt lift vs i := by
  unfold readingAt
  simp only [hhalf, hunit]

theorem readingAt_inside {lift i j : Nat} (h : FirstApart (unitAt us) (unitAt vs) i) (hj : j + 1 < i) :
    readingAt lift us j = readingAt lift vs j := by
  have hunit := h.1 j (by omega)
  have hprev := h.1 (j - 1) (by omega)
  have hnext := h.1 (j + 1) hj
  apply readingAt_congr hunit
  rw [unpairedAt_iff, unpairedAt_iff, hunit, hprev, hnext]

/-- Before the first index where the units differ, the arrays read alike, but for a pair that only one of them has. -/
theorem readingAt_before {lift i : Nat} (h : FirstApart (unitAt us) (unitAt vs) i) (hsplit : ¬SplitsPair us vs i) :
    ∀ j < i, readingAt lift us j = readingAt lift vs j := by
  intro j hj
  by_cases hinside : j + 1 < i
  · exact readingAt_inside h hinside
  · have hi : i = j + 1 := by omega
    have hunit := h.1 j hj
    have hprev := h.1 (j - 1) (by omega)
    apply readingAt_congr hunit
    rw [unpairedAt_iff, unpairedAt_iff, hunit, hprev]
    by_cases hhigh : isHighSurrogate (unitAt vs j) = true
    · have hlow : isLowSurrogate (unitAt us (j + 1)) = isLowSurrogate (unitAt vs (j + 1)) := by
        by_contra hne
        rw [hi] at hsplit
        exact hsplit ⟨Nat.succ_pos j, by rw [Nat.add_sub_cancel, hunit]; exact hhigh, hne⟩
      rw [hlow]
    · simp [hhigh]

theorem readingAt_high {lift i : Nat} (h : isHighSurrogate (unitAt us i)) :
    readingAt lift us i = if isLowSurrogate (unitAt us (i + 1)) then lift + unitAt us i else 0xFFFD := by
  have hnot := not_low_of_high h
  unfold readingAt
  simp only [unpairedAt_iff, h, isSurrogate_of_high h, hnot]
  by_cases hlow : isLowSurrogate (unitAt us (i + 1)) = true
  · simp [hlow]
  · simp [hlow]

/-- The order is kept where the first units and the first readings that differ have one order. -/
theorem sameBefore_iff {f g F G : Nat → Nat} {i j : Nat} (h : FirstApart f g i) (hread : FirstApart F G j) :
    (Before F G ↔ Before f g) ∧ (Before G F ↔ Before g f) ↔ (f i < g i ↔ F j < G j) := by
  rw [h.before_iff, h.symm.before_iff, hread.before_iff, hread.symm.before_iff]
  have hne := h.2
  have hne' := hread.2
  omega

theorem sameOrder_readings_iff {lift : Nat} (hlift : lift = 0 ∨ lift = 0x10000) (hus : ∀ u ∈ us, 0 < u)
    (hvs : ∀ v ∈ vs, 0 < v) : SameOrder (readings lift us) (readings lift vs) us vs ↔ OrderKept lift us vs := by
  have hF : unitAt (readings lift us) = readingAt lift us := funext (unitAt_readings lift us)
  have hG : unitAt (readings lift vs) = readingAt lift vs := funext (unitAt_readings lift vs)
  unfold SameOrder
  rw [lt_iff_before (readings_pos hus) (readings_pos hvs), lt_iff_before (readings_pos hvs) (readings_pos hus),
    lt_iff_before hus hvs, lt_iff_before hvs hus, hF, hG]
  by_cases hsame : unitAt us = unitAt vs
  · have hread : readingAt lift us = readingAt lift vs := by
      funext i
      apply readingAt_congr (congrFun hsame i)
      rw [unpairedAt_iff, unpairedAt_iff, hsame]
    rw [hsame, hread]
    refine iff_of_true ⟨iff_of_false (not_before_self _) (not_before_self _),
      iff_of_false (not_before_self _) (not_before_self _)⟩ fun i hi => ?_
    exact absurd (congrFun hsame i) hi.2
  · obtain ⟨i, hi⟩ := exists_firstApart hsame
    have honly : ∀ k, FirstApart (unitAt us) (unitAt vs) k → k = i := by
      intro k hk
      rcases Nat.lt_trichotomy k i with hlt | heq | hgt
      · exact absurd (hi.1 k hlt) hk.2
      · exact heq
      · exact absurd (hk.1 i hgt) hi.2
    have hall : OrderKept lift us vs ↔ _ := ⟨fun h => h i hi, fun h k hk => honly k hk ▸ h⟩
    rw [hall]
    by_cases hsplit : SplitsPair us vs i
    · rw [if_pos hsplit]
      obtain ⟨hpos, hhigh, hne⟩ := hsplit
      have hunit := hi.1 (i - 1) (by omega)
      have hbefore : ∀ j < i - 1, readingAt lift us j = readingAt lift vs j :=
        fun j hj => readingAt_inside hi (by omega)
      have hi1 : i - 1 + 1 = i := Nat.sub_add_cancel hpos
      have hreadU := @readingAt_high us lift (i - 1) hhigh
      have hreadV := @readingAt_high vs lift (i - 1) (hunit ▸ hhigh)
      rw [hi1] at hreadU hreadV
      rw [← hunit] at hreadV
      have hrange := hhigh
      simp only [isHighSurrogate, Bool.and_eq_true, decide_eq_true_eq] at hrange
      have hdiffer := hi.2
      by_cases hlow : isLowSurrogate (unitAt us i) = true
      · have hother : ¬isLowSurrogate (unitAt vs i) = true := fun h => hne (hlow.trans h.symm)
        rw [if_pos hlow] at hreadU
        rw [if_neg hother] at hreadV
        rw [if_pos hlow, sameBefore_iff hi ⟨hbefore, by omega⟩, hreadU, hreadV]
        omega
      · have hother : isLowSurrogate (unitAt vs i) = true := by
          rw [Bool.not_eq_true] at hlow
          rw [hlow] at hne
          exact Bool.eq_true_of_not_eq_false fun h => hne h.symm
        rw [if_neg hlow] at hreadU
        rw [if_pos hother] at hreadV
        rw [if_neg hlow, sameBefore_iff hi ⟨hbefore, by omega⟩, hreadU, hreadV]
        omega
    · rw [if_neg hsplit]
      have hbefore := @readingAt_before us vs lift i hi hsplit
      by_cases hread : readingAt lift us i = readingAt lift vs i
      · rw [if_pos hread]
        constructor
        · intro h
          have hne : readingAt lift us ≠ readingAt lift vs := by
            intro heq
            rw [heq] at h
            have h1 := mt h.1.mpr (not_before_self _)
            have h2 := mt h.2.mpr (not_before_self _)
            rw [hi.before_iff] at h1
            rw [hi.symm.before_iff] at h2
            have := hi.2
            omega
          obtain ⟨j, hj⟩ := exists_firstApart hne
          exact ⟨j, hj, (sameBefore_iff hi hj).mp h⟩
        · rintro ⟨j, hj, h⟩
          exact (sameBefore_iff hi hj).mpr h
      · rw [if_neg hread]
        exact sameBefore_iff hi ⟨hbefore, hread⟩

end Comparing

end Speakeasy
