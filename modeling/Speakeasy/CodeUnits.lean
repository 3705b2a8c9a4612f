import Mathlib.Data.List.Basic
import Mathlib.Data.List.Lex
import Mathlib.Algebra.Order.Ring.Nat

namespace Speakeasy

def isHighSurrogate (u : Nat) : Bool := 0xD800 ≤ u && u < 0xDC00

def isLowSurrogate (u : Nat) : Bool := 0xDC00 ≤ u && u < 0xE000

def isSurrogate (u : Nat) : Bool := 0xD800 ≤ u && u < 0xE000

/-- The code units that a UTF-16 decoder takes together. -/
inductive UnitGroup
  | single (u : Nat)
  | pair (high low : Nat)
  deriving DecidableEq

namespace UnitGroup

def units : UnitGroup → List Nat
  | single u => [u]
  | pair h l => [h, l]

def isPair : UnitGroup → Bool
  | single _ => false
  | pair .. => true

def isUnpaired : UnitGroup → Bool
  | single u => isSurrogate u
  | pair .. => false

/-- The character of a group, and `bad` of an unpaired surrogate. -/
def char (bad : Nat → Nat) : UnitGroup → Nat
  | single u => if isSurrogate u then bad u else u
  | pair h l => 0x10000 + (h - 0xD800) * 0x400 + (l - 0xDC00)

theorem char_single (bad : Nat → Nat) (u : Nat) :
    (single u).char bad = if isSurrogate u then bad u else u := rfl

theorem char_single_of_not {u : Nat} (bad : Nat → Nat) (h : ¬isSurrogate u) : (single u).char bad = u := if_neg h

theorem char_pair (bad : Nat → Nat) (h l : Nat) :
    (pair h l).char bad = 0x10000 + (h - 0xD800) * 0x400 + (l - 0xDC00) := rfl

theorem le_char_pair (bad : Nat → Nat) (h l : Nat) : 0x10000 ≤ (pair h l).char bad := by
  rw [char_pair]
  exact Nat.le_trans (Nat.le_add_right _ _) (Nat.le_add_right _ _)

/-- The units of the character that was read. -/
def reread (bad : Nat → Nat) : UnitGroup → List Nat
  | single u => [if isSurrogate u then bad u else u]
  | pair h l => [h, l]

end UnitGroup

def unitGroups : List Nat → List UnitGroup
  | [] => []
  | [u] => [.single u]
  | u :: v :: us =>
    if isHighSurrogate u ∧ isLowSurrogate v then .pair u v :: unitGroups us
    else .single u :: unitGroups (v :: us)

def pairCount (us : List Nat) : Nat := (unitGroups us).countP UnitGroup.isPair

def HasUnpaired (us : List Nat) : Prop := ∃ g ∈ unitGroups us, g.isUnpaired = true

instance (us : List Nat) : Decidable (HasUnpaired us) := by
  unfold HasUnpaired
  infer_instance

/-- A decoder that puts the character `bad u` for an unpaired surrogate `u`. -/
def decodeUnits (bad : Nat → Nat) (us : List Nat) : List Nat := (unitGroups us).map (UnitGroup.char bad)

def encodeChar (c : Nat) : List Nat :=
  if c < 0x10000 then [c] else [0xD800 + (c - 0x10000) / 0x400, 0xDC00 + (c - 0x10000) % 0x400]

def encodeUnits (cs : List Nat) : List Nat := cs.flatMap encodeChar

/-- The units with `bad u` for each unpaired surrogate `u`. -/
def rereadUnits (bad : Nat → Nat) (us : List Nat) : List Nat := (unitGroups us).flatMap (UnitGroup.reread bad)

theorem isSurrogate_of_high {u : Nat} (h : isHighSurrogate u) : isSurrogate u := by
  simp only [isHighSurrogate, isSurrogate, Bool.and_eq_true, decide_eq_true_eq] at h ⊢
  omega

theorem isSurrogate_of_low {u : Nat} (h : isLowSurrogate u) : isSurrogate u := by
  simp only [isLowSurrogate, isSurrogate, Bool.and_eq_true, decide_eq_true_eq] at h ⊢
  omega

theorem not_low_of_high {u : Nat} (h : isHighSurrogate u) : ¬isLowSurrogate u := by
  simp only [isHighSurrogate, isLowSurrogate, Bool.and_eq_true, decide_eq_true_eq] at h ⊢
  omega

@[simp] theorem unitGroups_nil : unitGroups [] = [] := rfl

theorem unitGroups_pair {u v : Nat} (us : List Nat) (hu : isHighSurrogate u) (hv : isLowSurrogate v) :
    unitGroups (u :: v :: us) = .pair u v :: unitGroups us := by
  rw [unitGroups, if_pos ⟨hu, hv⟩]

/-- A unit that is no first half, or that no second half follows, is taken alone. -/
theorem unitGroups_single {u : Nat} {us : List Nat}
    (h : ¬(isHighSurrogate u ∧ ∃ v ∈ us.head?, isLowSurrogate v)) :
    unitGroups (u :: us) = .single u :: unitGroups us := by
  cases us with
  | nil => rfl
  | cons v us =>
    rw [unitGroups, if_neg]
    intro hpair
    exact h ⟨hpair.1, v, rfl, hpair.2⟩

/-- A text can be cut before each unit that is no second half of a pair. -/
theorem unitGroups_append (us : List Nat) {vs : List Nat} (h : ∀ v ∈ vs.head?, ¬isLowSurrogate v) :
    unitGroups (us ++ vs) = unitGroups us ++ unitGroups vs := by
  induction us using unitGroups.induct with
  | case1 => rfl
  | case2 u =>
    rw [List.singleton_append, unitGroups_single]
    · rfl
    · rintro ⟨-, v, hv, hlow⟩
      exact h v hv hlow
  | case3 u v us hpair ih =>
    rw [List.cons_append, List.cons_append, unitGroups_pair _ hpair.1 hpair.2,
      unitGroups_pair _ hpair.1 hpair.2, ih, List.cons_append]
  | case4 u v us hpair ih =>
    have hsingle : ¬(isHighSurrogate u ∧ ∃ w ∈ (v :: us).head?, isLowSurrogate w) := by
      rintro ⟨hhigh, w, hw, hlow⟩
      rw [List.head?_cons, Option.mem_some] at hw
      exact hpair ⟨hhigh, hw ▸ hlow⟩
    have hrest : ¬(isHighSurrogate u ∧ ∃ w ∈ (v :: us ++ vs).head?, isLowSurrogate w) := hsingle
    rw [List.cons_append, unitGroups_single hrest, unitGroups_single hsingle, ih, List.cons_append]

/-- A unit that is no surrogate is a group of its own. -/
theorem unitGroups_split (us : List Nat) {c : Nat} (vs : List Nat) (h : ¬isSurrogate c) :
    unitGroups (us ++ c :: vs) = unitGroups us ++ .single c :: unitGroups vs := by
  rw [unitGroups_append us, unitGroups_single]
  · intro hc
    exact h (isSurrogate_of_high hc.1)
  · intro v hv hlow
    rw [List.head?_cons, Option.mem_some] at hv
    exact h (isSurrogate_of_low (hv ▸ hlow))

theorem unitGroups_units (us : List Nat) : (unitGroups us).flatMap UnitGroup.units = us := by
  induction us using unitGroups.induct with
  | case1 => rfl
  | case2 u => rfl
  | case3 u v us hpair ih =>
    rw [unitGroups_pair _ hpair.1 hpair.2, List.flatMap_cons, ih]
    rfl
  | case4 u v us hpair ih =>
    rw [unitGroups, if_neg hpair, List.flatMap_cons, ih]
    rfl

/-- What the groups are: a unit of the text, or a first and a second half that are two of its units. -/
theorem mem_unitGroups {us : List Nat} {g : UnitGroup} (h : g ∈ unitGroups us) :
    (∃ u ∈ us, g = .single u) ∨
      ∃ u ∈ us, ∃ v ∈ us, isHighSurrogate u ∧ isLowSurrogate v ∧ g = .pair u v := by
  induction us using unitGroups.induct with
  | case1 => cases h
  | case2 u => exact Or.inl ⟨u, List.mem_singleton_self u, List.mem_singleton.mp h⟩
  | case3 u v us hpair ih =>
    rw [unitGroups_pair _ hpair.1 hpair.2] at h
    rcases List.mem_cons.mp h with heq | h
    · exact Or.inr ⟨u, by simp, v, by simp, hpair.1, hpair.2, heq⟩
    · rcases ih h with ⟨w, hw, heq⟩ | ⟨w, hw, x, hx, hhigh, hlow, heq⟩
      · exact Or.inl ⟨w, by simp [hw], heq⟩
      · exact Or.inr ⟨w, by simp [hw], x, by simp [hx], hhigh, hlow, heq⟩
  | case4 u v us hpair ih =>
    rw [unitGroups, if_neg hpair] at h
    rcases List.mem_cons.mp h with heq | h
    · exact Or.inl ⟨u, by simp, heq⟩
    · rcases ih h with ⟨w, hw, heq⟩ | ⟨w, hw, x, hx, hhigh, hlow, heq⟩
      · exact Or.inl ⟨w, List.mem_cons_of_mem _ hw, heq⟩
      · exact Or.inr ⟨w, List.mem_cons_of_mem _ hw, x, List.mem_cons_of_mem _ hx, hhigh, hlow, heq⟩

theorem mem_of_single_mem {us : List Nat} {u : Nat} (h : UnitGroup.single u ∈ unitGroups us) : u ∈ us := by
  rcases mem_unitGroups h with ⟨w, hw, heq⟩ | ⟨_, _, _, _, _, _, heq⟩
  · injection heq with heq
    exact heq ▸ hw
  · cases heq

/-- Each pair makes one character of two units. -/
theorem length_unitGroups (us : List Nat) : us.length = (unitGroups us).length + pairCount us := by
  unfold pairCount
  induction us using unitGroups.induct with
  | case1 => rfl
  | case2 u => rfl
  | case3 u v us hpair ih =>
    rw [unitGroups_pair _ hpair.1 hpair.2, List.countP_cons_of_pos (by rfl), List.length_cons, List.length_cons,
      List.length_cons, ih]
    omega
  | case4 u v us hpair ih =>
    rw [unitGroups, if_neg hpair, List.countP_cons_of_neg (by simp [UnitGroup.isPair]), List.length_cons, ih,
      List.length_cons]
    omega

@[simp] theorem length_decodeUnits (bad : Nat → Nat) (us : List Nat) :
    (decodeUnits bad us).length = (unitGroups us).length := List.length_map ..

theorem decodeUnits_split {bad : Nat → Nat} (us : List Nat) {c : Nat} (vs : List Nat) (h : ¬isSurrogate c) :
    decodeUnits bad (us ++ c :: vs) = decodeUnits bad us ++ c :: decodeUnits bad vs := by
  unfold decodeUnits
  rw [unitGroups_split us vs h, List.map_append, List.map_cons, UnitGroup.char_single_of_not bad h]

theorem decodeUnits_plain {bad : Nat → Nat} {us : List Nat} (h : ∀ u ∈ us, ¬isSurrogate u) (vs : List Nat) :
    decodeUnits bad (us ++ vs) = us ++ decodeUnits bad vs := by
  induction us with
  | nil => rfl
  | cons u us ih =>
    have hu := h u List.mem_cons_self
    have hrest := ih fun v hv => h v (List.mem_cons_of_mem _ hv)
    have hsplit := @decodeUnits_split bad [] u (us ++ vs) hu
    rw [List.cons_append, ← List.nil_append (u :: (us ++ vs)), hsplit, hrest]
    rfl

theorem decodeUnits_self {bad : Nat → Nat} {us : List Nat} (h : ∀ u ∈ us, ¬isSurrogate u) :
    decodeUnits bad us = us := by
  have hplain := @decodeUnits_plain bad us h []
  rwa [List.append_nil, show decodeUnits bad [] = [] from rfl, List.append_nil] at hplain

/-- A character of one unit is a unit of the text that is no surrogate, or it stands for an unpaired surrogate. -/
theorem mem_decodeUnits_iff {bad : Nat → Nat} {us : List Nat} {c : Nat} (hc : c < 0x10000) :
    c ∈ decodeUnits bad us ↔
      (c ∈ us ∧ ¬isSurrogate c) ∨ ∃ u, UnitGroup.single u ∈ unitGroups us ∧ isSurrogate u ∧ bad u = c := by
  unfold decodeUnits
  rw [List.mem_map]
  constructor
  · rintro ⟨g, hg, hchar⟩
    cases g with
    | single u =>
      rw [UnitGroup.char_single] at hchar
      split at hchar
      next hs => exact Or.inr ⟨u, hg, hs, hchar⟩
      next hs => exact Or.inl ⟨hchar ▸ mem_of_single_mem hg, hchar ▸ hs⟩
    | pair h l =>
      have hle := UnitGroup.le_char_pair bad h l
      omega
  · rintro (⟨hmem, hs⟩ | ⟨u, hu, hs, hbad⟩)
    · obtain ⟨l, r, heq⟩ := List.append_of_mem hmem
      refine ⟨.single c, ?_, UnitGroup.char_single_of_not bad hs⟩
      rw [heq, unitGroups_split l r hs]
      exact List.mem_append_right _ List.mem_cons_self
    · exact ⟨.single u, hu, (if_pos hs).trans hbad⟩

theorem hasUnpaired_iff {us : List Nat} :
    HasUnpaired us ↔ ∃ u, UnitGroup.single u ∈ unitGroups us ∧ isSurrogate u := by
  constructor
  · rintro ⟨g, hg, hunpaired⟩
    cases g with
    | single u => exact ⟨u, hg, hunpaired⟩
    | pair h l => cases hunpaired
  · rintro ⟨u, hu, hs⟩
    exact ⟨.single u, hu, hs⟩

theorem encodeChar_pair {h l : Nat} (hh : isHighSurrogate h) (hl : isLowSurrogate l) :
    encodeChar (0x10000 + (h - 0xD800) * 0x400 + (l - 0xDC00)) = [h, l] := by
  simp only [isHighSurrogate, isLowSurrogate, Bool.and_eq_true, decide_eq_true_eq] at hh hl
  rw [encodeChar, if_neg (by omega)]
  have hhigh : 0xD800 + (0x10000 + (h - 0xD800) * 0x400 + (l - 0xDC00) - 0x10000) / 0x400 = h := by omega
  have hlow : 0xDC00 + (0x10000 + (h - 0xD800) * 0x400 + (l - 0xDC00) - 0x10000) % 0x400 = l := by omega
  rw [hhigh, hlow]

/-- Decoded and encoded again, the units are the same but for the unpaired surrogates. -/
theorem encodeUnits_decodeUnits {bad : Nat → Nat} {us : List Nat} (hus : ∀ u ∈ us, u < 0x10000)
    (hbad : ∀ u ∈ us, bad u < 0x10000) : encodeUnits (decodeUnits bad us) = rereadUnits bad us := by
  unfold encodeUnits decodeUnits rereadUnits
  rw [List.flatMap_map]
  apply List.flatMap_congr
  intro g hg
  rcases mem_unitGroups hg with ⟨u, hu, rfl⟩ | ⟨u, hu, v, hv, hhigh, hlow, rfl⟩
  · have hlt : (if isSurrogate u then bad u else u) < 0x10000 := by
      split
      next => exact hbad u hu
      next => exact hus u hu
    exact if_pos hlt
  · exact encodeChar_pair hhigh hlow

theorem encodeUnits_append (cs ds : List Nat) : encodeUnits (cs ++ ds) = encodeUnits cs ++ encodeUnits ds :=
  List.flatMap_append

theorem UnitGroup.length_reread (bad : Nat → Nat) (g : UnitGroup) : (g.reread bad).length = g.units.length := by
  cases g with
  | single u => rfl
  | pair h l => rfl

theorem length_rereadUnits (bad : Nat → Nat) (us : List Nat) : (rereadUnits bad us).length = us.length := by
  have hsum : (rereadUnits bad us).length = ((unitGroups us).flatMap UnitGroup.units).length := by
    rw [rereadUnits, List.length_flatMap, List.length_flatMap]
    congr 1
    exact List.map_congr_left fun g _ => g.length_reread bad
  rw [hsum, unitGroups_units]

theorem rereadUnits_id (us : List Nat) : rereadUnits id us = us := by
  have hsame : rereadUnits id us = (unitGroups us).flatMap UnitGroup.units := by
    apply List.flatMap_congr
    intro g _
    cases g with
    | single u => exact congrArg (fun x => [x]) (ite_self u)
    | pair h l => rfl
  rw [hsame, unitGroups_units]

/-- Where no unpaired surrogate reads as itself, a text is read as it stands only when it has none. -/
theorem rereadUnits_eq_iff {bad : Nat → Nat} (hbad : ∀ u, isSurrogate u → bad u ≠ u) (us : List Nat) :
    rereadUnits bad us = us ↔ ¬HasUnpaired us := by
  have hgroups : ∀ gs : List UnitGroup, gs.flatMap (UnitGroup.reread bad) = gs.flatMap UnitGroup.units ↔
      ¬∃ g ∈ gs, g.isUnpaired = true := by
    intro gs
    induction gs with
    | nil => simp
    | cons g gs ih =>
      have hcut : g.reread bad ++ gs.flatMap (UnitGroup.reread bad) = g.units ++ gs.flatMap UnitGroup.units ↔
          g.reread bad = g.units ∧ gs.flatMap (UnitGroup.reread bad) = gs.flatMap UnitGroup.units := by
        constructor
        · exact fun h => List.append_inj h (g.length_reread bad)
        · rintro ⟨hhead, htail⟩
          rw [hhead, htail]
      rw [List.flatMap_cons, List.flatMap_cons, hcut, ih, List.exists_mem_cons_iff, not_or]
      apply and_congr_left
      intro _
      cases g with
      | single u =>
        by_cases hs : isSurrogate u = true
        · simp [UnitGroup.reread, UnitGroup.units, UnitGroup.isUnpaired, hs, hbad u hs]
        · simp [UnitGroup.reread, UnitGroup.units, UnitGroup.isUnpaired, hs]
      | pair h l => simp [UnitGroup.reread, UnitGroup.units, UnitGroup.isUnpaired]
  unfold HasUnpaired
  rw [← hgroups, unitGroups_units]
  rfl

/-- An unpaired surrogate at an index: neither the first half of what follows nor the second of what stands before. -/
def UnpairedAt (us : List Nat) (i : Nat) : Prop :=
  ∃ u, us[i]? = some u ∧ isSurrogate u ∧ ¬(isHighSurrogate u ∧ ∃ v, us[i + 1]? = some v ∧ isLowSurrogate v) ∧
    ¬(isLowSurrogate u ∧ ∃ j v, i = j + 1 ∧ us[j]? = some v ∧ isHighSurrogate v)

theorem unpairedAt_cons {u : Nat} {us : List Nat} (h : ¬(isHighSurrogate u ∧ ∃ v ∈ us.head?, isLowSurrogate v))
    (i : Nat) : UnpairedAt (u :: us) (i + 1) ↔ UnpairedAt us i := by
  unfold UnpairedAt
  simp only [List.getElem?_cons_succ]
  apply exists_congr
  intro w
  apply and_congr_right
  intro hw
  apply and_congr_right
  intro _
  apply and_congr_right
  intro _
  apply not_congr
  apply and_congr_right
  intro hlow
  constructor
  · rintro ⟨j, v, hj, hv, hhigh⟩
    cases j with
    | zero =>
      rw [List.getElem?_cons_zero, Option.some.injEq] at hv
      have hi : i = 0 := by omega
      rw [hi] at hw
      exact absurd ⟨hv ▸ hhigh, w, List.head?_eq_getElem? ▸ hw, hlow⟩ h
    | succ j => exact ⟨j, v, by omega, hv, hhigh⟩
  · rintro ⟨j, v, hj, hv, hhigh⟩
    exact ⟨j + 1, v, by omega, hv, hhigh⟩

theorem unpairedAt_zero {u : Nat} {us : List Nat} (h : ¬(isHighSurrogate u ∧ ∃ v ∈ us.head?, isLowSurrogate v)) :
    UnpairedAt (u :: us) 0 ↔ isSurrogate u := by
  constructor
  · rintro ⟨w, hw, hs, -⟩
    rw [List.getElem?_cons_zero, Option.some.injEq] at hw
    exact hw ▸ hs
  · intro hs
    refine ⟨u, rfl, hs, ?_, ?_⟩
    · rintro ⟨hhigh, v, hv, hlow⟩
      rw [List.getElem?_cons_succ, ← List.head?_eq_getElem?] at hv
      exact h ⟨hhigh, v, hv, hlow⟩
    · rintro ⟨-, j, v, hj, -⟩
      omega

theorem not_unpairedAt_pair {u v : Nat} {us : List Nat} (hu : isHighSurrogate u) (hv : isLowSurrogate v) :
    ¬UnpairedAt (u :: v :: us) 0 ∧ ¬UnpairedAt (u :: v :: us) 1 ∧
      ∀ i, UnpairedAt (u :: v :: us) (i + 2) ↔ UnpairedAt us i := by
  have hlow : ¬isHighSurrogate v := fun hhigh => not_low_of_high hhigh hv
  refine ⟨?_, ?_, ?_⟩
  · rintro ⟨w, hw, -, hfirst, -⟩
    rw [List.getElem?_cons_zero, Option.some.injEq] at hw
    exact hfirst ⟨hw ▸ hu, v, rfl, hv⟩
  · rintro ⟨w, hw, -, -, hsecond⟩
    rw [List.getElem?_cons_succ, List.getElem?_cons_zero, Option.some.injEq] at hw
    exact hsecond ⟨hw ▸ hv, 0, u, rfl, rfl, hu⟩
  · intro i
    have hrest : UnpairedAt (v :: us) (i + 1) ↔ UnpairedAt us i := unpairedAt_cons (fun h => hlow h.1) i
    rw [← hrest]
    unfold UnpairedAt
    simp only [List.getElem?_cons_succ]
    apply exists_congr
    intro w
    apply and_congr_right
    intro hw
    apply and_congr_right
    intro _
    apply and_congr_right
    intro _
    apply not_congr
    apply and_congr_right
    intro _
    constructor
    · rintro ⟨j, x, hj, hx, hhigh⟩
      cases j with
      | zero => omega
      | succ j => exact ⟨j, x, by omega, hx, hhigh⟩
    · rintro ⟨j, x, hj, hx, hhigh⟩
      exact ⟨j + 1, x, by omega, hx, hhigh⟩

/-- A unit is read as it stands unless it is an unpaired surrogate. -/
theorem rereadUnits_getElem?_iff {bad : Nat → Nat} (hbad : ∀ u, isSurrogate u → bad u ≠ u) (us : List Nat) (i : Nat) :
    (rereadUnits bad us)[i]? = us[i]? ↔ ¬UnpairedAt us i := by
  have hsingle : ∀ u, (if isSurrogate u = true then bad u else u) = u ↔ ¬isSurrogate u = true := by
    intro u
    by_cases hs : isSurrogate u = true
    · simp [hs, hbad u hs]
    · simp [hs]
  induction us using unitGroups.induct generalizing i with
  | case1 => simp [rereadUnits, UnpairedAt]
  | case2 u =>
    have hno : ¬(isHighSurrogate u ∧ ∃ v ∈ ([] : List Nat).head?, isLowSurrogate v) := by
      rintro ⟨-, v, hv, -⟩
      cases hv
    cases i with
    | zero =>
      rw [unpairedAt_zero hno, ← hsingle]
      simp [rereadUnits, unitGroups, UnitGroup.reread]
    | succ i =>
      rw [unpairedAt_cons hno]
      simp [rereadUnits, unitGroups, UnitGroup.reread, UnpairedAt]
  | case3 u v us hpair ih =>
    have hread : rereadUnits bad (u :: v :: us) = u :: v :: rereadUnits bad us := by
      unfold rereadUnits
      rw [unitGroups_pair _ hpair.1 hpair.2]
      rfl
    obtain ⟨hzero, hone, hrest⟩ := @not_unpairedAt_pair u v us hpair.1 hpair.2
    rw [hread]
    match i with
    | 0 => exact iff_of_true rfl hzero
    | 1 => exact iff_of_true rfl hone
    | i + 2 =>
      rw [hrest]
      exact ih i
  | case4 u v us hpair ih =>
    have hno : ¬(isHighSurrogate u ∧ ∃ w ∈ (v :: us).head?, isLowSurrogate w) := by
      rintro ⟨hhigh, w, hw, hlow⟩
      rw [List.head?_cons, Option.mem_some] at hw
      exact hpair ⟨hhigh, hw ▸ hlow⟩
    have hread : rereadUnits bad (u :: v :: us) = (if isSurrogate u then bad u else u) :: rereadUnits bad (v :: us) := by
      unfold rereadUnits
      rw [unitGroups_single hno]
      rfl
    rw [hread]
    cases i with
    | zero =>
      rw [unpairedAt_zero hno, ← hsingle, List.getElem?_cons_zero, List.getElem?_cons_zero, Option.some.injEq]
    | succ i =>
      rw [unpairedAt_cons hno]
      exact ih i

theorem rereadUnits_take_iff {bad : Nat → Nat} (hbad : ∀ u, isSurrogate u → bad u ≠ u) (us : List Nat) (count : Nat) :
    (rereadUnits bad us).take count = us.take count ↔ ∀ i < count, ¬UnpairedAt us i := by
  constructor
  · intro h i hi
    rw [← rereadUnits_getElem?_iff hbad, ← List.getElem?_take_of_lt hi, h, List.getElem?_take_of_lt hi]
  · intro h
    apply List.ext_getElem?
    intro i
    rw [List.getElem?_take, List.getElem?_take]
    split
    next hi => exact (rereadUnits_getElem?_iff hbad us i).mpr (h i hi)
    next => rfl

end Speakeasy
