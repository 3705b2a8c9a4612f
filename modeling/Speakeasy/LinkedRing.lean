import Mathlib.Data.List.Basic
import Mathlib.Data.List.Chain

namespace Speakeasy

/-- Following `next` from `a` visits the nodes in order and then comes to `b`. -/
def Visits {α : Type} (next : α → α) : α → List α → α → Prop
  | a, [], b => next a = b
  | a, n :: ns, b => next a = n ∧ Visits next n ns b

/-- A doubly linked ring through a head. -/
structure IsRing {α : Type} (flink blink : α → α) (head : α) (nodes : List α) : Prop where
  forward : Visits flink head nodes head
  backward : Visits blink head nodes.reverse head

/-- Two neighbours of a list are linked both ways. -/
def Neighbours {α : Type} (flink blink : α → α) (a b : α) : Prop := flink a = b ∧ blink b = a

variable {α : Type} {flink blink : α → α}

theorem visits_of_isChain {next : α → α} {a b : α} {nodes : List α}
    (h : (a :: (nodes ++ [b])).IsChain fun x y => next x = y) : Visits next a nodes b := by
  induction nodes generalizing a with
  | nil => simpa [Visits] using h
  | cons n nodes ih =>
    rw [List.cons_append, List.isChain_cons_cons] at h
    exact ⟨h.1, ih h.2⟩

theorem isRing_of_isChain {head : α} {nodes : List α}
    (h : (head :: (nodes ++ [head])).IsChain (Neighbours flink blink)) :
    IsRing flink blink head nodes where
  forward := visits_of_isChain (h.imp fun _ _ hn => hn.1)
  backward := by
    have hrev : (head :: (nodes.reverse ++ [head])).IsChain
        fun x y => Neighbours flink blink y x := by
      simpa using List.isChain_reverse.mpr h
    exact visits_of_isChain (hrev.imp fun _ _ hn => hn.2)

end Speakeasy
