import Mathlib.Logic.Relation

/-! A forest is given by the parent of each node. -/

variable {α : Type*} {parent : α → Option α}

/-- The node is in the subtree of the other one. -/
def Under (parent : α → Option α) : α → α → Prop :=
  Relation.ReflTransGen fun x y => parent x = some y

theorem under_iff {x y : α} : Under parent x y ↔ x = y ∨ ∃ c, parent c = some y ∧ Under parent x c := by
  unfold Under
  rw [Relation.ReflTransGen.cases_tail_iff]
  constructor
  · intro h
    cases h with
    | inl heq => exact Or.inl heq.symm
    | inr htail => exact Or.inr (htail.imp fun c hc => ⟨hc.2, hc.1⟩)
  · intro h
    cases h with
    | inl heq => exact Or.inl heq.symm
    | inr htail => exact Or.inr (htail.imp fun c hc => ⟨hc.2, hc.1⟩)

theorem Under.level_le {x y : α} (h : Under parent x y) {level : α → Nat}
    (hlevel : ∀ {x p}, parent x = some p → level x < level p) : level x ≤ level y := by
  induction h with
  | refl => exact Nat.le_refl _
  | tail _ hstep ih => exact Nat.le_trans ih (Nat.le_of_lt (hlevel hstep))

/-- A set of nodes that has the parent of each of its nodes. -/
def Rooted (parent : α → Option α) (nodes : α → Prop) : Prop :=
  ∀ ⦃x p⦄, nodes x → parent x = some p → nodes p

theorem Rooted.under {nodes : α → Prop} (h : Rooted parent nodes) {x y : α} (hx : nodes x)
    (hunder : Under parent x y) : nodes y := by
  induction hunder with
  | refl => exact hx
  | tail _ hstep ih => exact h ih hstep

/-- A set stays rooted without a subtree. -/
theorem Rooted.remove {nodes : α → Prop} (h : Rooted parent nodes) (y : α) :
    Rooted parent fun x => nodes x ∧ ¬Under parent x y := by
  intro x p hx hp
  exact ⟨h hx.1 hp, fun hunder => hx.2 (Relation.ReflTransGen.head hp hunder)⟩
