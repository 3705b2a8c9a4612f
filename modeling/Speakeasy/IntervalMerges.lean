import Mathlib.Data.List.Induction
import Mathlib.Order.Lattice
import Mathlib.Algebra.Order.Ring.Int

/-! Intervals with both ends, joined where they overlap or are adjacent. -/

namespace IntervalMerges

def InRange (range : Int × Int) (x : Int) : Prop := range.1 ≤ x ∧ x ≤ range.2

def Covers (ranges : List (Int × Int)) (x : Int) : Prop := ∃ range ∈ ranges, InRange range x

/-- Neither overlapping nor adjacent, in the order of the numbers. -/
def Apart (a b : Int × Int) : Prop := a.2 + 1 < b.1

/-- An interval that begins at or behind the last one is joined with it or added. -/
def addRange (ranges : List (Int × Int)) (range : Int × Int) : List (Int × Int) :=
  match ranges.getLast? with
  | none => [range]
  | some last =>
    if range.1 ≤ last.2 + 1 then ranges.dropLast ++ [(last.1, max last.2 range.2)]
    else ranges ++ [range]

def mergeRanges (ranges : List (Int × Int)) : List (Int × Int) := ranges.foldl addRange []

theorem addRange_nil (range : Int × Int) : addRange [] range = [range] := rfl

theorem addRange_concat (front : List (Int × Int)) (last range : Int × Int) :
    addRange (front ++ [last]) range =
      if range.1 ≤ last.2 + 1 then front ++ [(last.1, max last.2 range.2)]
      else front ++ [last] ++ [range] := by
  rw [addRange, List.getLast?_concat]
  simp only [List.dropLast_concat]

theorem covers_append {a b : List (Int × Int)} {x : Int} :
    Covers (a ++ b) x ↔ Covers a x ∨ Covers b x := by
  simp [Covers, or_and_right, exists_or]

theorem covers_singleton {range : Int × Int} {x : Int} : Covers [range] x ↔ InRange range x := by
  simp [Covers]

/-- Intervals that are not empty and lie apart, none of which begins behind `bound`. -/
structure Merged (ranges : List (Int × Int)) (bound : Int) : Prop where
  apart : ranges.Pairwise Apart
  nonempty : ∀ range ∈ ranges, range.1 ≤ range.2
  begins : ∀ range ∈ ranges, range.1 ≤ bound

theorem Merged.add {ranges : List (Int × Int)} {bound : Int} {range : Int × Int} (h : Merged ranges bound)
    (hrange : range.1 ≤ range.2) (hbound : bound ≤ range.1) :
    Merged (addRange ranges range) range.1 ∧
    ∀ x, Covers (addRange ranges range) x ↔ Covers ranges x ∨ InRange range x := by
  obtain rfl | ⟨front, last, hconcat⟩ := List.eq_nil_or_concat ranges
  · rw [addRange_nil]
    refine ⟨⟨List.pairwise_singleton _ _, by simpa using hrange, by simp⟩, fun x => ?_⟩
    simp [Covers]
  rw [List.concat_eq_append] at hconcat
  subst hconcat
  have hlast := h.nonempty last (by simp)
  have hbegin := h.begins last (by simp)
  have hpairs := List.pairwise_append.mp h.apart
  have hfront : ∀ r ∈ front, Apart r last := fun r hr => hpairs.2.2 r hr last (by simp)
  rw [addRange_concat]
  by_cases hjoin : range.1 ≤ last.2 + 1
  · rw [if_pos hjoin]
    refine ⟨⟨?_, ?_, ?_⟩, fun x => ?_⟩
    · refine List.pairwise_append.mpr ⟨hpairs.1, List.pairwise_singleton _ _, ?_⟩
      intro r hr joined hjoined
      rw [List.mem_singleton] at hjoined
      rw [hjoined]
      exact hfront r hr
    · intro r hr
      rw [List.mem_append, List.mem_singleton] at hr
      cases hr with
      | inl hr => exact h.nonempty r (by simp [hr])
      | inr hr =>
        subst hr
        show last.1 ≤ max last.2 range.2
        omega
    · intro r hr
      rw [List.mem_append, List.mem_singleton] at hr
      cases hr with
      | inl hr =>
        have hle := h.begins r (by simp [hr])
        omega
      | inr hr =>
        subst hr
        show last.1 ≤ range.1
        omega
    · rw [covers_append, covers_append, covers_singleton, covers_singleton, or_assoc]
      refine or_congr_right ?_
      unfold InRange
      simp only
      omega
  · rw [if_neg hjoin]
    refine ⟨⟨?_, ?_, ?_⟩, fun x => ?_⟩
    · refine List.pairwise_append.mpr ⟨h.apart, List.pairwise_singleton _ _, ?_⟩
      intro r hr added hadded
      rw [List.mem_singleton] at hadded
      subst hadded
      rw [List.mem_append, List.mem_singleton] at hr
      cases hr with
      | inl hr =>
        have hapart := hfront r hr
        unfold Apart at hapart ⊢
        omega
      | inr hr =>
        subst hr
        unfold Apart
        omega
    · intro r hr
      rw [List.mem_append, List.mem_singleton] at hr
      cases hr with
      | inl hr => exact h.nonempty r hr
      | inr hr => rw [hr]; exact hrange
    · intro r hr
      rw [List.mem_append, List.mem_singleton] at hr
      cases hr with
      | inl hr =>
        have hle := h.begins r hr
        omega
      | inr hr => rw [hr]
    · rw [covers_append, covers_singleton]

/-- Intervals in the order of their begins are merged to intervals that lie apart and cover the same. -/
theorem foldl_addRange {ranges merged : List (Int × Int)} {bound : Int} (h : Merged merged bound)
    (hranges : ∀ range ∈ ranges, range.1 ≤ range.2) (hbound : ∀ range ∈ ranges, bound ≤ range.1)
    (hsorted : ranges.Pairwise fun a b => a.1 ≤ b.1) :
    (∃ bound', Merged (ranges.foldl addRange merged) bound') ∧
    ∀ x, Covers (ranges.foldl addRange merged) x ↔ Covers merged x ∨ Covers ranges x := by
  induction ranges generalizing merged bound with
  | nil => exact ⟨⟨bound, h⟩, fun x => by simp [Covers]⟩
  | cons range ranges ih =>
    obtain ⟨hfirst, hrest⟩ := List.pairwise_cons.mp hsorted
    obtain ⟨hstep, hcovers⟩ := h.add (hranges range List.mem_cons_self) (hbound range List.mem_cons_self)
    obtain ⟨hall, hunion⟩ := ih hstep (fun r hr => hranges r (List.mem_cons_of_mem _ hr)) hfirst hrest
    refine ⟨hall, fun x => ?_⟩
    have hcons : Covers (range :: ranges) x ↔ InRange range x ∨ Covers ranges x := by simp [Covers]
    rw [List.foldl_cons, hunion, hcovers, hcons, or_assoc]

theorem mergeRanges_apart {ranges : List (Int × Int)} (hranges : ∀ range ∈ ranges, range.1 ≤ range.2)
    (hsorted : ranges.Pairwise fun a b => a.1 ≤ b.1) :
    (mergeRanges ranges).Pairwise Apart ∧ (∀ range ∈ mergeRanges ranges, range.1 ≤ range.2) ∧
    ∀ x, Covers (mergeRanges ranges) x ↔ Covers ranges x := by
  cases ranges with
  | nil => exact ⟨List.Pairwise.nil, by simp [mergeRanges], fun x => Iff.rfl⟩
  | cons range ranges =>
    have hempty : Merged [] range.1 := ⟨List.Pairwise.nil, by simp, by simp⟩
    have hbound : ∀ r ∈ range :: ranges, range.1 ≤ r.1 := by
      intro r hr
      cases List.mem_cons.mp hr with
      | inl heq => rw [heq]
      | inr hin => exact (List.pairwise_cons.mp hsorted).1 r hin
    obtain ⟨⟨bound, hmerged⟩, hcovers⟩ := foldl_addRange hempty hranges hbound hsorted
    refine ⟨hmerged.apart, hmerged.nonempty, fun x => ?_⟩
    have hnone : ¬Covers [] x := by simp [Covers]
    rw [mergeRanges, hcovers]
    exact or_iff_right hnone

end IntervalMerges
