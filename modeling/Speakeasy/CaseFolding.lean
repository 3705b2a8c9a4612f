import Speakeasy.CodeUnits
import Mathlib.Data.List.Forall2

namespace Speakeasy

/-- The three forms of the letter sigma. -/
def IsSigma (c : Nat) : Prop := c = 0x3A3 ∨ c = 0x3C3 ∨ c = 0x3C2

/-- The tables behind `str.lower`: the lower case of the characters where it is one character, which is so but for
U+0130, and the two properties that decide which small sigma a capital one becomes. -/
structure CaseTables where
  toLower : Nat → Nat
  cased : Nat → Bool
  ignorable : Nat → Bool
  plane : ∀ c, toLower c < 0x10000 ↔ c < 0x10000
  surrogate : ∀ c, isSurrogate (toLower c) = isSurrogate c
  replacement : ∀ c, toLower c = 0xFFFD ↔ c = 0xFFFD
  lowerI : toLower 0x69 = 0x69
  dotAbove : ∀ c, toLower c = 0x307 ↔ c = 0x307
  capitalSigma : toLower 0x3A3 = 0x3C3
  smallSigma : toLower 0x3C3 = 0x3C3
  sigma : ∀ c, IsSigma (toLower c) ↔ IsSigma c
  finalSigma : ∀ c, toLower c = 0x3C2 ↔ c = 0x3C2
  cased_toLower : ∀ c, cased (toLower c) = cased c
  ignorable_toLower : ∀ c, ignorable (toLower c) = ignorable c
  sigmaKind : ∀ c, IsSigma c → cased c = true ∧ ignorable c = false

namespace CaseTables

variable (T : CaseTables)

/-- Whether the first character that is not case-ignorable is a cased one. -/
def meetsCased : List Nat → Bool
  | [] => false
  | c :: cs => if T.ignorable c then meetsCased cs else T.cased c

example (h : T.ignorable 0x27 = true) (hc : T.ignorable 0x61 = false) : T.meetsCased [0x27, 0x61] = T.cased 0x61 := by
  rw [meetsCased, if_pos h, meetsCased, hc]
  rfl

/-- The lower case of a character, with what stands before it, the nearest first, and what follows it. -/
def lowerChar (before : List Nat) (c : Nat) (after : List Nat) : List Nat :=
  if c = 0x3A3 then [if T.meetsCased before && !T.meetsCased after then 0x3C2 else 0x3C3]
  else if c = 0x130 then [0x69, 0x307]
  else [T.toLower c]

def lowerIn (before : List Nat) : List Nat → List Nat → List Nat
  | [], _ => []
  | c :: cs, after => T.lowerChar before c (cs ++ after) ++ lowerIn (c :: before) cs after

example : T.lowerIn [] [0x130] [] = [0x69, 0x307] := by
  rw [lowerIn]
  rfl

/-- `str.lower`. -/
def lower (cs : List Nat) : List Nat := T.lowerIn [] cs []

/-- Two characters that the rule of the capital sigma does not tell apart. -/
def SameKind (c d : Nat) : Prop := T.cased c = T.cased d ∧ T.ignorable c = T.ignorable d

/-- A form of sigma behind a cased character. -/
def SigmaAfterCased (cs : List Nat) : Prop :=
  ∃ xs c ys, cs = xs ++ c :: ys ∧ IsSigma c ∧ T.meetsCased xs.reverse = true

/-- Where the lower case has an i with a dot above. -/
def DottedI (cs : List Nat) : Prop :=
  0x130 ∈ cs ∨ ∃ xs c ys, cs = xs ++ c :: 0x307 :: ys ∧ T.toLower c = 0x69

variable {T} {before after cs xs ys zs : List Nat} {c d : Nat}

theorem meetsCased_append (ys : List Nat) (h : T.meetsCased xs = true) : T.meetsCased (xs ++ ys) = true := by
  induction xs with
  | nil => cases h
  | cons x xs ih =>
    rw [meetsCased] at h
    rw [List.cons_append, meetsCased]
    split
    next hi => exact ih (by rwa [if_pos hi] at h)
    next hi => rwa [if_neg hi] at h

theorem meetsCased_congr (h : List.Forall₂ T.SameKind xs ys) : T.meetsCased xs = T.meetsCased ys := by
  induction h with
  | nil => rfl
  | cons hxy _ ih => rw [meetsCased, meetsCased, hxy.1, hxy.2, ih]

/-- Nothing behind a sigma matters to what stands before it. -/
theorem meetsCased_stop (hc : IsSigma c) (hd : IsSigma d) (xs ys zs : List Nat) :
    T.meetsCased (xs ++ c :: ys) = T.meetsCased (xs ++ d :: zs) := by
  induction xs with
  | nil =>
    have hkind := T.sigmaKind c hc
    have hkind' := T.sigmaKind d hd
    simp [meetsCased, hkind, hkind']
  | cons x xs ih => rw [List.cons_append, List.cons_append, meetsCased, meetsCased, ih]

theorem lowerIn_append (before xs ys after : List Nat) :
    T.lowerIn before (xs ++ ys) after =
      T.lowerIn before xs (ys ++ after) ++ T.lowerIn (xs.reverse ++ before) ys after := by
  induction xs generalizing before with
  | nil => rfl
  | cons x xs ih =>
    rw [List.cons_append, lowerIn, lowerIn, ih, List.append_assoc, List.append_assoc, List.reverse_cons,
      List.append_assoc, List.singleton_append]

theorem lowerIn_stop (hc : IsSigma c) (hd : IsSigma d) (before xs ys zs : List Nat) :
    T.lowerIn before xs (c :: ys) = T.lowerIn before xs (d :: zs) := by
  induction xs generalizing before with
  | nil => rfl
  | cons x xs ih => rw [lowerIn, lowerIn, ih, lowerChar, lowerChar, meetsCased_stop hc hd]

theorem lower_split (xs : List Nat) (c : Nat) (ys : List Nat) :
    T.lower (xs ++ c :: ys) =
      T.lowerIn [] xs (c :: ys) ++ (T.lowerChar xs.reverse c ys ++ T.lowerIn (c :: xs.reverse) ys []) := by
  rw [lower, lowerIn_append, List.append_nil, List.append_nil, lowerIn, List.append_nil]

theorem lower_singleton (hne : c ≠ 0x130) : T.lower [c] = [T.toLower c] := by
  show T.lowerChar [] c [] ++ [] = _
  rw [List.append_nil, lowerChar]
  split
  next hc =>
    rw [hc, T.capitalSigma]
    rfl
  next => rfl

theorem lower_dotted : T.lower [0x130] = [0x69, 0x307] := rfl

/-- A character and one of its lower case at the same place. -/
structure LowerOf (T : CaseTables) (c d : Nat) : Prop where
  kind : T.SameKind c d
  sigma : c = 0x3A3 → IsSigma d

theorem lowerOf_toLower (c : Nat) : T.LowerOf c (T.toLower c) where
  kind := ⟨(T.cased_toLower c).symm, (T.ignorable_toLower c).symm⟩
  sigma hc := (T.sigma c).mpr (Or.inl hc)

theorem lowerOf_sigma (hd : IsSigma d) : T.LowerOf 0x3A3 d where
  kind := by
    have hkind := T.sigmaKind 0x3A3 (Or.inl rfl)
    have hkind' := T.sigmaKind d hd
    exact ⟨hkind.1.trans hkind'.1.symm, hkind.2.trans hkind'.2.symm⟩
  sigma _ := hd

theorem forall₂_toLower (cs : List Nat) : List.Forall₂ T.LowerOf cs (cs.map T.toLower) := by
  induction cs with
  | nil => exact .nil
  | cons c cs ih => exact .cons (lowerOf_toLower c) ih

theorem forall₂_lowerIn (h : 0x130 ∉ cs) (before after : List Nat) :
    List.Forall₂ T.LowerOf cs (T.lowerIn before cs after) := by
  induction cs generalizing before with
  | nil => exact .nil
  | cons c cs ih =>
    have htail := ih (fun hmem => h (List.mem_cons_of_mem _ hmem)) (c :: before)
    have hne : c ≠ 0x130 := fun heq => h (heq ▸ List.mem_cons_self)
    rw [lowerIn, lowerChar]
    split
    next hc =>
      rw [hc] at htail ⊢
      apply List.Forall₂.cons _ htail
      apply lowerOf_sigma
      split
      next => exact Or.inr (Or.inr rfl)
      next => exact Or.inr (Or.inl rfl)
    next => exact .cons (lowerOf_toLower c) htail

/-- Where no capital sigma follows a cased character, each character has its own lower case. -/
theorem lowerIn_eq_map (h : 0x130 ∉ cs)
    (hsigma : ∀ xs ys, cs = xs ++ 0x3A3 :: ys → T.meetsCased (xs.reverse ++ before) = false) (after : List Nat) :
    T.lowerIn before cs after = cs.map T.toLower := by
  induction cs generalizing before with
  | nil => rfl
  | cons c cs ih =>
    have hne : c ≠ 0x130 := fun heq => h (heq ▸ List.mem_cons_self)
    have htail := @ih (c :: before) (fun hmem => h (List.mem_cons_of_mem _ hmem)) (by
      intro xs ys hcs
      have hstep := hsigma (c :: xs) ys (by rw [hcs, List.cons_append])
      rwa [List.reverse_cons, List.append_assoc, List.singleton_append] at hstep)
    rw [lowerIn, htail, lowerChar, List.map_cons]
    split
    next hc =>
      have hbefore : T.meetsCased before = false := hsigma [] cs (by rw [hc, List.nil_append])
      rw [hbefore, hc, T.capitalSigma]
      rfl
    next => rfl

theorem lower_eq_map (h : 0x130 ∉ cs)
    (hsigma : ∀ xs ys, cs = xs ++ 0x3A3 :: ys → T.meetsCased xs.reverse = false) :
    T.lower cs = cs.map T.toLower :=
  lowerIn_eq_map h (fun xs ys hcs => by rw [List.append_nil]; exact hsigma xs ys hcs) []

theorem forall₂_split {R : Nat → Nat → Prop} (h : List.Forall₂ R (xs ++ c :: ys) zs) :
    ∃ xs' d ys', zs = xs' ++ d :: ys' ∧ List.Forall₂ R xs xs' ∧ R c d := by
  induction xs generalizing zs with
  | nil =>
    cases h with
    | cons hcd htail => exact ⟨[], _, _, rfl, .nil, hcd⟩
  | cons x xs ih =>
    cases h with
    | cons hxy htail =>
      obtain ⟨xs', d, ys', rfl, hxs, hcd⟩ := ih htail
      exact ⟨_ :: xs', d, ys', rfl, .cons hxy hxs, hcd⟩

theorem meetsCased_lower (h : List.Forall₂ T.LowerOf xs ys) : T.meetsCased xs.reverse = T.meetsCased ys.reverse :=
  meetsCased_congr (List.forall₂_reverse_iff.mpr (h.imp fun _ _ hcd => hcd.kind))

/-- In a text whose sigmas follow no cased character, what matches has its sigmas so as well. -/
theorem lower_of_match {us ns rs : List Nat} {i : Nat} (hus : ¬T.SigmaAfterCased us) (hns : 0x130 ∉ ns)
    (hrs : List.Forall₂ T.LowerOf ns rs) (h : rs <+: (us.map T.toLower).drop i) : T.lower ns = ns.map T.toLower := by
  apply lower_eq_map hns
  intro xs ys hsplit
  rw [← Bool.not_eq_true]
  intro hcased
  rw [hsplit] at hrs
  obtain ⟨xs', d, ys', rfl, hxs, hd⟩ := forall₂_split hrs
  obtain ⟨rest, hrest⟩ := h
  have hwhole : us.map T.toLower = (us.map T.toLower).take i ++ (xs' ++ (d :: (ys' ++ rest))) := by
    conv_lhs => rw [← List.take_append_drop i (us.map T.toLower), ← hrest]
    simp
  obtain ⟨pre, tail, hus', hpre, htail⟩ := List.map_eq_append_iff.mp hwhole
  obtain ⟨mid, tail', rfl, hmid, htail'⟩ := List.map_eq_append_iff.mp htail
  obtain ⟨c, tail'', rfl, hc, -⟩ := List.map_eq_cons_iff.mp htail'
  have hmids : T.meetsCased mid.reverse = true := by
    have hfirst := meetsCased_lower hxs
    have hsecond := meetsCased_lower (@forall₂_toLower T mid)
    rw [hsecond, hmid, ← hfirst]
    exact hcased
  apply hus
  refine ⟨pre ++ mid, c, tail'', by rw [hus', List.append_assoc], ?_, ?_⟩
  · rw [← T.sigma c, hc]
    exact hd.sigma rfl
  · rw [List.reverse_append]
    exact meetsCased_append _ hmids

/-- The i with a dot above in the lower case comes from one character or from two. -/
theorem mem_of_dotted {us : List Nat} {i : Nat} (h : [0x69, 0x307] <+: (us.map T.toLower).drop i) : T.DottedI us := by
  obtain ⟨rest, hrest⟩ := h
  rw [← List.map_drop] at hrest
  obtain ⟨c, tail, hdrop, hc, htail⟩ := List.map_eq_cons_iff.mp hrest.symm
  obtain ⟨d, tail', rfl, hd, -⟩ := List.map_eq_cons_iff.mp htail
  refine Or.inr ⟨us.take i, c, tail', ?_, hc⟩
  rw [← (T.dotAbove d).mp hd, ← hdrop, List.take_append_drop]

theorem infix_lower_dotted (h : 0x130 ∈ cs) : [0x69, 0x307] <:+: T.lower cs := by
  obtain ⟨xs, ys, rfl⟩ := List.append_of_mem h
  rw [lower_split]
  exact ⟨T.lowerIn [] xs (0x130 :: ys), T.lowerIn (0x130 :: xs.reverse) ys [], by
    rw [List.append_assoc]
    rfl⟩

/-- A character of each lower case that no rule but the table gives. -/
theorem mem_lowerIn (hmem : c ∈ cs) (hdot : c ≠ 0x130) (hsigma : c ≠ 0x3A3) (before after : List Nat) :
    T.toLower c ∈ T.lowerIn before cs after := by
  induction cs generalizing before with
  | nil => cases hmem
  | cons d cs ih =>
    rw [lowerIn, List.mem_append]
    rcases List.mem_cons.mp hmem with rfl | hmem
    · left
      rw [lowerChar, if_neg hsigma, if_neg hdot]
      exact List.mem_singleton_self _
    · exact Or.inr (ih hmem _)

end CaseTables

end Speakeasy
