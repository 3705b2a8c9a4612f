import Speakeasy.MemoryManager

namespace Speakeasy

open PageEngine

namespace MemoryManager

variable {ε : Type} [PageEngine ε]

theorem pageTotal_aligned (size : Nat) : PageAligned (pageTotal size) := by
  unfold pageTotal
  split
  · exact pageAligned_pageSize
  · split <;> simp only [PageAligned, pageSize] at * <;> omega

theorem pageSize_le_pageTotal (size : Nat) : pageSize ≤ pageTotal size := by
  unfold pageTotal
  split
  · exact le_rfl
  · split <;> omega

theorem le_pageTotal (size : Nat) : size ≤ pageTotal size := by
  unfold pageTotal
  split
  · omega
  · split <;> omega

theorem pageTotal_pageSize : pageTotal pageSize = pageSize := by decide

theorem pageTotal_idem (size : Nat) : pageTotal (pageTotal size) = pageTotal size := by
  have haligned : pageTotal size % pageSize = 0 := pageTotal_aligned size
  have hle := pageSize_le_pageTotal size
  generalize pageTotal size = total at haligned hle
  unfold pageTotal
  rw [if_neg (by omega), if_neg (by omega)]

theorem le_skipPages (total : Nat) (points : List Nat) (base : Nat) :
    base ≤ skipPages total points base := by
  induction points generalizing base with
  | nil => exact le_rfl
  | cons page rest ih =>
    rw [skipPages]
    split
    next => exact le_rfl
    next =>
      split
      next hle =>
        have := ih (page + pageSize)
        omega
      next => exact ih base

/-- On aligned pages in order, the loop ends at a page-aligned base whose range has none of them. -/
theorem skipPages_spec {total : Nat} {pages : List Nat} (hs : pages.Pairwise (· ≤ ·))
    (hp : ∀ p ∈ pages, PageAligned p) {base : Nat} (hb : PageAligned base) :
    PageAligned (skipPages total pages base) ∧ base ≤ skipPages total pages base ∧
      ∀ p ∈ pages, p + pageSize ≤ skipPages total pages base ∨
        skipPages total pages base + total ≤ p := by
  induction pages generalizing base with
  | nil => exact ⟨hb, le_rfl, by simp⟩
  | cons page rest ih =>
    obtain ⟨hle, hs⟩ := List.pairwise_cons.mp hs
    have hpage := hp page (by simp)
    have hrest := fun p h => hp p (List.mem_cons_of_mem _ h)
    rw [skipPages]
    split
    next hbreak =>
      refine ⟨hb, le_rfl, fun p h => Or.inr ?_⟩
      rcases List.mem_cons.mp h with rfl | h
      · exact hbreak
      · exact hbreak.trans (hle p h)
    next =>
      split
      next hge =>
        obtain ⟨h1, h2, h3⟩ := ih hs hrest (hpage.add pageAligned_pageSize)
        refine ⟨h1, by omega, fun p h => ?_⟩
        rcases List.mem_cons.mp h with rfl | h
        · exact Or.inl h2
        · exact h3 p h
      next hlt =>
        obtain ⟨h1, h2, h3⟩ := ih hs hrest hb
        refine ⟨h1, h2, fun p h => ?_⟩
        rcases List.mem_cons.mp h with rfl | h
        · exact Or.inl ((hpage.add_page_le hb (by omega)).trans h2)
        · exact h3 p h

/-- A range without a used page is where its own search ends. -/
theorem skipPages_of_free {total base : Nat} {pages : List Nat}
    (h : ∀ p ∈ pages, p + pageSize ≤ base ∨ base + total ≤ p) : skipPages total pages base = base := by
  induction pages with
  | nil => rfl
  | cons page rest ih =>
    have hpage := h page List.mem_cons_self
    have hrest := ih fun p hp => h p (List.mem_cons_of_mem _ hp)
    rw [skipPages]
    split
    next => rfl
    next hbreak =>
      split
      next hle =>
        have hpos : 0 < pageSize := by decide
        omega
      next => exact hrest

theorem mem_usedPages {s : MemoryManager ε} {p : Nat} :
    p ∈ s.usedPages ↔ (∃ m ∈ s.getMemRegions, p ∈ pageSteps m.first m.last) ∨
      ∃ r ∈ s.memReserves, p ∈ pageSteps r.base (r.base + r.size) := by
  simp [usedPages, List.mem_insertionSort, List.mem_flatMap]

theorem usedPages_sorted (s : MemoryManager ε) : s.usedPages.Pairwise (· ≤ ·) :=
  List.pairwise_insertionSort _ _

def ReservesAligned (s : MemoryManager ε) : Prop := ∀ r ∈ s.memReserves, PageAligned r.base

/-- No byte of a range is mapped or reserved. -/
def Unused (s : MemoryManager ε) (base size : Nat) : Prop :=
  ∀ a, base ≤ a → a < base + size → ¬Mapped s.emuEng a ∧ ∀ r ∈ s.memReserves, ¬r.Covers a

theorem firstValidRange_cases {env : MemEnv} {s : MemoryManager ε} {size : Nat} {addr : Option Nat}
    {base total : Nat} (h : firstValidRange env s size addr = .ok (base, total)) :
    total = pageTotal size ∧
      base = skipPages total s.usedPages (pageOf (addr.getD s.allocBase)) := by
  simp only [firstValidRange] at h
  split at h
  · split at h
    · cases h
    · cases h
      exact ⟨rfl, rfl⟩
  · cases h
    exact ⟨rfl, rfl⟩

/-- Both searches of the Windows emulator are searches of the memory manager. -/
theorem getValidRanges_cases {env : MemEnv} {s : MemoryManager ε} {size : Nat} {addr : Option Nat}
    {base total : Nat} (h : getValidRanges env s size addr = .ok (base, total)) :
    ∃ addr', firstValidRange env s size addr' = .ok (base, total) := by
  unfold getValidRanges at h
  split at h
  next hf _ =>
    split at h
    · exact ⟨_, h⟩
    · exact ⟨addr, hf.trans h⟩
  next => exact ⟨addr, h⟩

theorem getValidRanges_total {env : MemEnv} {s : MemoryManager ε} {size : Nat} {addr : Option Nat}
    {base total : Nat} (h : getValidRanges env s size addr = .ok (base, total)) :
    total = pageTotal size := by
  obtain ⟨_, h⟩ := getValidRanges_cases h
  exact (firstValidRange_cases h).1

variable [LawfulPageEngine ε]

theorem usedPages_aligned {s : MemoryManager ε} (hr : s.ReservesAligned) :
    ∀ p ∈ s.usedPages, PageAligned p := by
  intro p hp
  rcases mem_usedPages.mp hp with ⟨m, hm, h⟩ | ⟨r, h, hp⟩
  · exact pageAligned_of_mem_pageSteps (LawfulPageEngine.valid _ m hm).1 h
  · exact pageAligned_of_mem_pageSteps (hr r h) hp

/-- The page of a mapped byte, and of a byte that an aligned reservation holds, is stepped over. -/
theorem pageOf_mem_usedPages {s : MemoryManager ε} (hr : s.ReservesAligned) {a : Nat}
    (h : Mapped s.emuEng a ∨ ∃ r ∈ s.memReserves, r.Covers a) : pageOf a ∈ s.usedPages := by
  apply mem_usedPages.mpr
  rcases h with h | ⟨r, h, hc⟩
  · obtain ⟨m, hm, hc⟩ := mapped_iff.mp h
    obtain ⟨hf, hl, _⟩ := LawfulPageEngine.valid _ m hm
    refine Or.inl ⟨m, hm, ?_⟩
    -- The listed end of a region is its last byte, which is past the start of the last page.
    simp only [mem_pageSteps, Region.Covers, PageAligned, pageOf, pageSize] at *
    omega
  · exact Or.inr ⟨r, h, pageOf_mem_pageSteps (hr r h) hc.1 hc.2⟩

theorem getValidRanges_spec {env : MemEnv} {s : MemoryManager ε} (hr : s.ReservesAligned)
    {size : Nat} {addr : Option Nat} {base total : Nat}
    (h : getValidRanges env s size addr = .ok (base, total)) :
    PageRange base total ∧ size ≤ total ∧ s.Unused base total := by
  obtain ⟨addr', h⟩ := getValidRanges_cases h
  obtain ⟨rfl, rfl⟩ := firstValidRange_cases h
  obtain ⟨h1, _, h3⟩ := skipPages_spec s.usedPages_sorted
    (usedPages_aligned hr) (pageOf_aligned (addr'.getD s.allocBase))
  have hpos : 0 < pageTotal size := lt_of_lt_of_le (by decide) (pageSize_le_pageTotal size)
  refine ⟨⟨h1, pageTotal_aligned size, hpos⟩, le_pageTotal size, fun a hl hu => ?_⟩
  have hfree : pageOf a ∉ s.usedPages := by
    intro hm
    have := lt_pageOf_add a
    have := pageOf_le a
    rcases h3 _ hm with h | h <;> omega
  exact ⟨fun hm => hfree (pageOf_mem_usedPages hr (Or.inl hm)),
    fun r h hc => hfree (pageOf_mem_usedPages hr (Or.inr ⟨r, h, hc⟩))⟩

end MemoryManager

end Speakeasy
