import Mathlib.Data.List.Basic

namespace Speakeasy

/-- The matches of a pattern at the start of a text, each with the text after it. The first match is the one
that a backtracking search finds. -/
def Matcher (σ α : Type) := List σ → List (α × List σ)

namespace Matcher

variable {σ α β : Type}

instance : Monad (Matcher σ) where
  pure a := fun input => [(a, input)]
  bind m next := fun input => (m input).flatMap fun found => next found.1 found.2

def item (p : σ → Bool) : Matcher σ σ
  | [] => []
  | c :: cs => if p c then [(c, cs)] else []

def literal [DecidableEq σ] (text : List σ) (a : α) : Matcher σ α := fun input =>
  if text <+: input then [(a, input.drop text.length)] else []

/-- `|` -/
def oneOf (choices : List (Matcher σ α)) : Matcher σ α := fun input => choices.flatMap fun m => m input

/-- `?` -/
def optional (m : Matcher σ α) : Matcher σ (Option α) := fun input =>
  (m input).map (fun found => (some found.1, found.2)) ++ [(none, input)]

/-- `*` -/
def many (p : σ → Bool) : Matcher σ (List σ)
  | [] => [([], [])]
  | c :: cs =>
    if p c then (many p cs).map (fun found => (c :: found.1, found.2)) ++ [([], c :: cs)] else [([], c :: cs)]

/-- `+` -/
def many1 (p : σ → Bool) : Matcher σ (List σ) := do
  let c ← item p
  let cs ← many p
  return c :: cs

/-- A match takes `n` items or more. -/
def Consumes (n : Nat) (m : Matcher σ α) : Prop := ∀ input, ∀ found ∈ m input, found.2.length + n ≤ input.length

theorem Consumes.mono {n k : Nat} {m : Matcher σ α} (h : m.Consumes n) (hk : k ≤ n) : m.Consumes k := by
  intro input found hfound
  have := h input found hfound
  omega

theorem consumes_pure (a : α) : (pure a : Matcher σ α).Consumes 0 := by
  intro input found hfound
  have hfound : found = (a, input) := List.mem_singleton.mp hfound
  rw [hfound]
  exact Nat.le_refl _

theorem Consumes.bind {n k : Nat} {m : Matcher σ α} {next : α → Matcher σ β} (hm : m.Consumes n)
    (hnext : ∀ a, (next a).Consumes k) : (m >>= next).Consumes (n + k) := by
  intro input found hfound
  obtain ⟨first, hfirst, hfound⟩ := List.mem_flatMap.mp hfound
  have hlen := hm input first hfirst
  have hrest := hnext first.1 first.2 found hfound
  omega

theorem consumes_item (p : σ → Bool) : (item p).Consumes 1 := by
  intro input found hfound
  cases input with
  | nil => simp [item] at hfound
  | cons c cs =>
    rw [item] at hfound
    by_cases hp : p c
    · rw [if_pos hp] at hfound
      rw [List.mem_singleton.mp hfound]
      exact Nat.le_refl _
    · rw [if_neg hp] at hfound
      simp at hfound

theorem consumes_literal [DecidableEq σ] (text : List σ) (a : α) :
    (literal text a : Matcher σ α).Consumes text.length := by
  intro input found hfound
  unfold literal at hfound
  split at hfound
  next hfront =>
    have hlen := hfront.length_le
    rw [List.mem_singleton.mp hfound]
    show (input.drop text.length).length + text.length ≤ input.length
    rw [List.length_drop]
    omega
  next => simp at hfound

theorem consumes_oneOf {n : Nat} {choices : List (Matcher σ α)} (h : ∀ m ∈ choices, m.Consumes n) :
    (oneOf choices).Consumes n := by
  intro input found hfound
  obtain ⟨m, hm, hfound⟩ := List.mem_flatMap.mp hfound
  exact h m hm input found hfound

theorem Consumes.optional {m : Matcher σ α} (h : m.Consumes 0) : m.optional.Consumes 0 := by
  intro input found hfound
  cases List.mem_append.mp hfound with
  | inl hfound =>
    obtain ⟨inner, hinner, rfl⟩ := List.mem_map.mp hfound
    exact h input inner hinner
  | inr hfound =>
    rw [List.mem_singleton.mp hfound]
    exact Nat.le_refl _

theorem consumes_many (p : σ → Bool) : (many p).Consumes 0 := by
  intro input
  induction input with
  | nil =>
    intro found hfound
    rw [many, List.mem_singleton] at hfound
    rw [hfound]
    exact Nat.le_refl _
  | cons c cs ih =>
    intro found hfound
    rw [many] at hfound
    split at hfound
    next =>
      cases List.mem_append.mp hfound with
      | inl hfound =>
        obtain ⟨inner, hinner, rfl⟩ := List.mem_map.mp hfound
        exact Nat.le_trans (ih inner hinner) (Nat.le_succ _)
      | inr hfound =>
        rw [List.mem_singleton.mp hfound]
        exact Nat.le_refl _
    next =>
      rw [List.mem_singleton.mp hfound]
      exact Nat.le_refl _

theorem consumes_many1 (p : σ → Bool) : (many1 p).Consumes 1 :=
  (consumes_item p).bind fun _ => (consumes_many p).bind fun _ => consumes_pure _

end Matcher

/-- A pattern that does not match the empty text. -/
structure Pattern (σ α : Type) where
  matcher : Matcher σ α
  consumes : matcher.Consumes 1

namespace Pattern

variable {σ α : Type} (p : Pattern σ α)

/-- The matches that `finditer` gives, in the text between them. -/
def pieces (input : List σ) : List (σ ⊕ α) :=
  match input with
  | [] => []
  | c :: cs =>
    match _hfound : (p.matcher (c :: cs)).head? with
    | some found => .inr found.1 :: pieces found.2
    | none => .inl c :: pieces cs
termination_by input.length
decreasing_by
  · have hlen := p.consumes (c :: cs) found (List.mem_of_head? _hfound)
    omega
  · exact Nat.lt_succ_self _

@[simp] theorem pieces_nil : p.pieces [] = [] := by
  rw [pieces]

theorem pieces_cons_found {p : Pattern σ α} {c : σ} {cs : List σ} {found : α × List σ}
    (h : (p.matcher (c :: cs)).head? = some found) : p.pieces (c :: cs) = .inr found.1 :: p.pieces found.2 := by
  rw [pieces]
  split
  next other hother =>
    rw [h] at hother
    cases hother
    rfl
  next hnone =>
    rw [h] at hnone
    cases hnone

/-- `finditer` -/
def found (input : List σ) : List α := (p.pieces input).filterMap Sum.getRight?

end Pattern

end Speakeasy
