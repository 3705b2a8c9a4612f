import Mathlib.Data.List.Basic
import Mathlib.Data.List.Pairwise
import Mathlib.Order.Lattice

/-! A list read group by group, and when that keeps its order. -/

namespace GroupedLists

variable {α κ ρ : Type*}

theorem filter_append_of_front {p : α → Bool} {l : List α}
    (h : l.Pairwise fun x y => p y = true → p x = true) :
    l.filter p ++ l.filter (fun x => !p x) = l := by
  induction l with
  | nil => rfl
  | cons x l ih =>
    obtain ⟨hx, hl⟩ := List.pairwise_cons.mp h
    by_cases hp : p x = true
    · rw [List.filter_cons_of_pos hp, List.filter_cons_of_neg (by simp [hp]), List.cons_append, ih hl]
    · have hnone : l.filter p = [] := by
        refine List.filter_eq_nil_iff.mpr fun y hy hpy => hp ?_
        exact hx y hy hpy
      have hall : l.filter (fun x => !p x) = l := by
        refine List.filter_eq_self.mpr fun y hy => ?_
        have : p y ≠ true := fun hpy => hp (hx y hy hpy)
        simpa using this
      rw [List.filter_cons_of_neg hp, List.filter_cons_of_pos (by simp [hp]), hnone, hall]
      rfl

variable [DecidableEq κ] [LinearOrder ρ] {rank : κ → ρ} {g : α → κ}

/-- The groups follow one another by rank, so their elements do. -/
theorem groups_pairwise {G : List κ} (hG : G.Pairwise fun a b => rank a < rank b) (M : List α) :
    (G.flatMap fun k => M.filter fun x => decide (g x = k)).Pairwise
      fun x y => rank (g x) ≤ rank (g y) := by
  refine List.pairwise_flatMap.mpr ⟨fun k _ => ?_, hG.imp fun {a b} hab x hx y hy => ?_⟩
  · refine List.Pairwise.imp_of_mem (R := fun _ _ => True) ?_ (List.pairwise_of_forall fun _ _ => trivial)
    intro x y hx hy _
    have hx : g x = k := by simpa using (List.mem_filter.mp hx).2
    have hy : g y = k := by simpa using (List.mem_filter.mp hy).2
    rw [hx, hy]
  · have hx : g x = a := by simpa using (List.mem_filter.mp hx).2
    have hy : g y = b := by simpa using (List.mem_filter.mp hy).2
    rw [hx, hy]
    exact hab.le

theorem groups_eq_of_sorted {G : List κ} (hG : G.Pairwise fun a b => rank a < rank b) {M : List α}
    (hin : ∀ x ∈ M, g x ∈ G) (hM : M.Pairwise fun x y => rank (g x) ≤ rank (g y)) :
    (G.flatMap fun k => M.filter fun x => decide (g x = k)) = M := by
  induction G generalizing M with
  | nil =>
    cases M with
    | nil => rfl
    | cons x M => exact absurd (hin x List.mem_cons_self) (by simp)
  | cons k G ih =>
    obtain ⟨hk, hG⟩ := List.pairwise_cons.mp hG
    have hmem : ∀ x ∈ M, g x ≠ k → g x ∈ G := fun x hx hne =>
      (List.mem_cons.mp (hin x hx)).resolve_left hne
    have hfront : M.Pairwise fun x y => decide (g y = k) = true → decide (g x = k) = true := by
      refine hM.imp_of_mem fun {x y} hx _ hle hy => ?_
      simp only [decide_eq_true_eq] at hy ⊢
      by_contra hne
      exact absurd (hk _ (hmem x hx hne)) (not_lt.mpr (hy ▸ hle))
    have hrest := ih (M := M.filter fun x => !decide (g x = k)) hG
      (fun x hx => by
        obtain ⟨hx, hne⟩ := List.mem_filter.mp hx
        exact hmem x hx (by simpa using hne))
      (hM.sublist List.filter_sublist)
    have hgroups : (G.flatMap fun k' => M.filter fun x => decide (g x = k')) =
        G.flatMap fun k' => (M.filter fun x => !decide (g x = k)).filter fun x => decide (g x = k') := by
      refine List.flatMap_congr fun k' hk' => ?_
      rw [List.filter_filter]
      refine List.filter_congr fun x _ => ?_
      have hne : k' ≠ k := fun heq => lt_irrefl _ (heq ▸ hk k' hk')
      by_cases hx : g x = k'
      · simp [hx, hne]
      · simp [hx]
    rw [List.flatMap_cons, hgroups, hrest]
    exact filter_append_of_front hfront

/-- Reading a list group by group keeps its order exactly when the ranks of the groups do. -/
theorem groups_eq_iff {G : List κ} (hG : G.Pairwise fun a b => rank a < rank b) {M : List α}
    (hin : ∀ x ∈ M, g x ∈ G) :
    (G.flatMap fun k => M.filter fun x => decide (g x = k)) = M ↔
      M.Pairwise fun x y => rank (g x) ≤ rank (g y) := by
  constructor
  · intro h
    rw [← h]
    exact groups_pairwise hG M
  · exact groups_eq_of_sorted hG hin

end GroupedLists
