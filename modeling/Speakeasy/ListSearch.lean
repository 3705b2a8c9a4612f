import Mathlib.Data.List.Nodup

namespace Speakeasy

variable {α : Type}

theorem find?_congr {p q : α → Bool} {l : List α} (h : ∀ x ∈ l, p x = q x) :
    l.find? p = l.find? q := by
  induction l with
  | nil => rfl
  | cons x l ih =>
    have hx := h x List.mem_cons_self
    have hrest := ih fun y hy => h y (List.mem_cons_of_mem _ hy)
    rw [List.find?_cons, List.find?_cons, hx, hrest]

/-- The first element of a list without duplicates that is not among its first `k`. -/
theorem find?_not_taken [DecidableEq α] {l : List α} (h : l.Nodup) (k : Nat) :
    (l.find? fun x => decide (x ∉ l.take k)) = l[k]? := by
  have hsplit : (l.find? fun x => decide (x ∉ l.take k)) =
      (l.take k ++ l.drop k).find? fun x => decide (x ∉ l.take k) := by
    rw [List.take_append_drop]
  have htake : ((l.take k).find? fun x => decide (x ∉ l.take k)) = none := by
    apply List.find?_eq_none.mpr
    intro x hx
    simpa using hx
  rw [hsplit, List.find?_append, htake, Option.none_or]
  cases hdrop : l.drop k with
  | nil =>
    rw [List.find?_nil, List.getElem?_eq_none]
    exact List.drop_eq_nil_iff.mp hdrop
  | cons x rest =>
    have hx : x ∉ l.take k := by
      intro hmem
      rw [← List.take_append_drop k l] at h
      have hdisjoint := (List.nodup_append.mp h).2.2 x hmem x (hdrop ▸ List.mem_cons_self)
      exact hdisjoint rfl
    have hfirst : ((x :: rest).find? fun x => decide (x ∉ l.take k)) = some x :=
      List.find?_cons_of_pos (by simpa using hx)
    have hk := congrArg (fun l => l[0]?) hdrop
    rw [hfirst]
    simpa using hk.symm

end Speakeasy
