import Mathlib.Algebra.Order.Ring.Nat
import Mathlib.Data.List.Basic
import Mathlib.Data.List.Perm.Basic
import Mathlib.Data.Nat.Log

/-! Bottom-up merging. The comparisons are steps of a machine, which may answer in any way. -/

namespace MergeRuns

section

structure Outcome (α σ : Type*) where
  items : List α
  calls : List (α × α)
  state : σ

section

variable {α σ : Type*} (ask : σ → α → α → Bool × σ)

/-- The state after some comparisons. -/
def states (s : σ) (calls : List (α × α)) : σ := calls.foldl (fun s call => (ask s call.1 call.2).2) s

/-- The merge of two lists. `ask` says whether the element of the right list is first. -/
def merge : Nat → List α → List α → σ → Outcome α σ
  | fuel + 1, a :: left, b :: right, s =>
    let answer := ask s a b
    let rest := if answer.1 then merge fuel (a :: left) right answer.2 else merge fuel left (b :: right) answer.2
    ⟨(if answer.1 then b else a) :: rest.items, (a, b) :: rest.calls, rest.state⟩
  | _, left, right, s => ⟨left ++ right, [], s⟩

/-- The merges of neighbouring runs, from some start positions. -/
def pass (order : List α) (run : Nat) : List Nat → σ → Outcome α σ
  | [], s => ⟨[], [], s⟩
  | start :: starts, s =>
    let left := (order.drop start).take run
    let right := (order.drop (start + run)).take run
    let first := merge ask (left.length + right.length) left right s
    let rest := pass order run starts first.state
    ⟨first.items ++ rest.items, first.calls ++ rest.calls, rest.state⟩

end

variable {α σ : Type*} {ask : σ → α → α → Bool × σ} {s : σ}

end

section

/-! A comparison that follows a preorder: bottom-up merging sorts, and keeps the order of equal elements. -/

variable {α σ : Type*} {ask : σ → α → α → Bool × σ} {s : σ} {P : σ → Prop} {E : α → Prop} {le before : α → α → Prop}

/-- A run of a list: the elements with the positions from `k * width` on. -/
def block (width k : Nat) (l : List α) : List α := (l.drop (k * width)).take width

end

section

/-! The passes of a bottom-up merge sort. -/

variable {α σ : Type*} {ask : σ → α → α → Bool × σ} {s : σ} {P : σ → Prop} {E : α → Prop} {le before : α → α → Prop}

end

end MergeRuns
