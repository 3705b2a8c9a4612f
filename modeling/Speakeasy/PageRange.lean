import Mathlib.Data.List.Basic
import Mathlib.Data.List.Pairwise
import Mathlib.Data.List.Sort

namespace Speakeasy

/-- The size of a page of the guest. -/
def pageSize : Nat := 0x1000

def PageAligned (a : Nat) : Prop := a % pageSize = 0

instance (a : Nat) : Decidable (PageAligned a) := inferInstanceAs (Decidable (_ = _))

/-- A byte range that a page engine can map: whole pages, and at least one. -/
structure PageRange (base size : Nat) : Prop where
  base_aligned : PageAligned base
  size_aligned : PageAligned size
  size_pos : 0 < size

instance (base size : Nat) : Decidable (PageRange base size) :=
  decidable_of_iff (PageAligned base ∧ PageAligned size ∧ 0 < size)
    ⟨fun h => ⟨h.1, h.2.1, h.2.2⟩, fun h => ⟨h.1, h.2, h.3⟩⟩

/-- The first address of the page that holds an address. -/
def pageOf (a : Nat) : Nat := a - a % pageSize

theorem pageOf_le (a : Nat) : pageOf a ≤ a := Nat.sub_le ..

theorem lt_pageOf_add (a : Nat) : a < pageOf a + pageSize := by
  simp only [pageOf, pageSize]
  omega

theorem pageOf_aligned (a : Nat) : PageAligned (pageOf a) := by
  simp only [PageAligned, pageOf, pageSize]
  omega

theorem PageAligned.add {a b : Nat} (ha : PageAligned a) (hb : PageAligned b) :
    PageAligned (a + b) := by
  simp only [PageAligned, pageSize] at *
  omega

theorem pageAligned_pageSize : PageAligned pageSize := by decide

/-- Two aligned addresses in order are at least a page apart. -/
theorem PageAligned.add_page_le {a b : Nat} (ha : PageAligned a) (hb : PageAligned b)
    (h : a < b) : a + pageSize ≤ b := by
  simp only [PageAligned, pageSize] at *
  omega

theorem PageAligned.le_pageOf {a b : Nat} (ha : PageAligned a) : a ≤ pageOf b ↔ a ≤ b := by
  simp only [PageAligned, pageOf, pageSize] at *
  omega

/-- Python's `range(lo, hi, page_size)`. -/
def pageSteps (lo hi : Nat) : List Nat :=
  (List.range ((hi - lo + (pageSize - 1)) / pageSize)).map (lo + pageSize * ·)

theorem mem_pageSteps {lo hi p : Nat} :
    p ∈ pageSteps lo hi ↔ lo ≤ p ∧ p < hi ∧ (p - lo) % pageSize = 0 := by
  simp only [pageSteps, List.mem_map, List.mem_range, pageSize]
  constructor
  · rintro ⟨i, hi, rfl⟩
    omega
  · rintro ⟨hl, hu, hm⟩
    exact ⟨(p - lo) / 0x1000, by omega, by omega⟩

/-- Every address of a range that starts on a page has its page among the steps. -/
theorem pageOf_mem_pageSteps {lo hi a : Nat} (hlo : PageAligned lo) (hl : lo ≤ a) (hu : a < hi) :
    pageOf a ∈ pageSteps lo hi := by
  simp only [mem_pageSteps, PageAligned, pageOf, pageSize] at *
  omega

theorem pageAligned_of_mem_pageSteps {lo hi p : Nat} (hlo : PageAligned lo)
    (h : p ∈ pageSteps lo hi) : PageAligned p := by
  simp only [mem_pageSteps, PageAligned, pageSize] at *
  omega

end Speakeasy
