import Speakeasy.ValidRanges

namespace Speakeasy

open PageEngine

/-- The first of the points that a range at a base has. -/
def FirstPoint (points : List Nat) (total base point : Nat) : Prop :=
  point ∈ points ∧ base ≤ point ∧ point < base + total ∧
    ∀ p ∈ points, base ≤ p → point ≤ p

theorem exists_firstPoint {points : List Nat} {total base p : Nat} (hp : p ∈ points)
    (hb : base ≤ p) (ht : p < base + total) : ∃ point, FirstPoint points total base point := by
  induction p using Nat.strong_induction_on with
  | _ p ih =>
    by_cases hleast : ∀ q ∈ points, base ≤ q → p ≤ q
    · exact ⟨p, hp, hb, ht, hleast⟩
    · push Not at hleast
      obtain ⟨q, hq, hbq, hlt⟩ := hleast
      exact ih q hlt hq hbq (by omega)

namespace MemoryManager

theorem skipPages_stop {total base : Nat} {points : List Nat}
    (h : ∀ p ∈ points, base ≤ p → base + total ≤ p) : skipPages total points base = base := by
  induction points with
  | nil => rfl
  | cons page rest ih =>
    have hpage := h page List.mem_cons_self
    rw [skipPages]
    split
    next => rfl
    next hbreak =>
      rw [if_neg (by omega)]
      exact ih fun p hp => h p (List.mem_cons_of_mem _ hp)

/-- The search goes on behind the first point of the range it tries. -/
theorem skipPages_step {total base point : Nat} {points : List Nat}
    (hs : points.Pairwise (· ≤ ·)) (hp : FirstPoint points total base point) :
    skipPages total points base = skipPages total points (point + pageSize) := by
  obtain ⟨hmem, hle, hlt, hleast⟩ := hp
  have hpos : 0 < pageSize := by decide
  induction points with
  | nil => simp at hmem
  | cons page rest ih =>
    obtain ⟨hpage, hs⟩ := List.pairwise_cons.mp hs
    have hbound : page ≤ point := by
      rcases List.mem_cons.mp hmem with rfl | hin
      · exact le_rfl
      · exact hpage point hin
    have hskip : skipPages total (page :: rest) (point + pageSize) =
        skipPages total rest (point + pageSize) := by
      rw [skipPages, if_neg (by omega), if_neg (by omega)]
    rw [hskip, skipPages, if_neg (by omega)]
    by_cases hbase : base ≤ page
    · have := hleast page List.mem_cons_self hbase
      rw [if_pos hbase, show page = point by omega]
    · rw [if_neg hbase]
      have hin : point ∈ rest := by
        rcases List.mem_cons.mp hmem with rfl | hin
        · omega
        · exact hin
      exact ih hs hin fun p hin hb => hleast p (List.mem_cons_of_mem _ hin) hb

/-- A search ends where no point is left, with what holds of its first base and behind each first point. -/
theorem skipPages_rule {points : List Nat} (hs : points.Pairwise (· ≤ ·)) {total : Nat} {motive : Nat → Prop}
    (step : ∀ base point, motive base → FirstPoint points total base point → motive (point + pageSize))
    {base : Nat} (h : motive base) :
    motive (skipPages total points base) ∧
      ∀ p ∈ points, skipPages total points base ≤ p → skipPages total points base + total ≤ p := by
  generalize hn : skipPages total points base - base = n
  induction n using Nat.strong_induction_on generalizing base with
  | _ n ih =>
    by_cases hstop : ∀ p ∈ points, base ≤ p → base + total ≤ p
    · rw [skipPages_stop hstop]
      exact ⟨h, hstop⟩
    · push Not at hstop
      obtain ⟨p, hp, hb, ht⟩ := hstop
      obtain ⟨point, hpoint⟩ := exists_firstPoint hp hb ht
      have hskip := skipPages_step hs hpoint
      have hle := le_skipPages total points (point + pageSize)
      have hpos : 0 < pageSize := by decide
      have hbase := hpoint.2.1
      rw [hskip]
      exact ih _ (by omega) (step base point h hpoint) rfl

variable {ε : Type} [PageEngine ε]

/-- What a search for a free range owes to its caller. -/
structure SearchLaw (s : MemoryManager ε) (size start base total : Nat) : Prop where
  base_aligned : PageAligned base
  total_aligned : PageAligned total
  size_le : max size pageSize ≤ total
  start_le : pageOf start ≤ base
  unused : s.Unused base total
  least : ∀ b, PageAligned b → pageOf start ≤ b → b < base → ¬s.Unused b total

/-- The search comes to the page: no free range begins before it or on it. -/
structure Searched (s : MemoryManager ε) (total start page : Nat) : Prop where
  aligned : PageAligned page
  start_le : start ≤ page
  busy : ∀ b, PageAligned b → start ≤ b → b ≤ page → ¬s.Unused b total

/-- A page begins with a byte that is mapped, or reserved by a range that begins on a page boundary. -/
def Listed (s : MemoryManager ε) (page : Nat) : Prop :=
  Mapped s.emuEng page ∨ ∃ r ∈ s.memReserves, PageAligned r.base ∧ r.Covers page

/-- Each page to which the search comes and of which a reserved range has a byte is listed. -/
def ReservesListed (s : MemoryManager ε) (total start : Nat) : Prop :=
  ∀ page, s.Searched total start page → ∀ r ∈ s.memReserves, ∀ a, r.Covers a → pageOf a = page → s.Listed page

/-- A reserved range has a byte of a page that is not listed, and nothing else is used from there to behind a
range after its end. -/
structure StandsAlone (s : MemoryManager ε) (total page : Nat) (r : MemMap) : Prop where
  reserve : r ∈ s.memReserves
  touches : ∃ a, r.Covers a ∧ pageOf a = page
  unlisted : ¬s.Listed page
  alone : ∀ a, page ≤ a → a < r.base + r.size + pageSize + total →
    ¬Mapped s.emuEng a ∧ ∀ r' ∈ s.memReserves, r'.Covers a → r' = r

theorem usedPages_used {s : MemoryManager ε} {p : Nat} (h : p ∈ s.usedPages) :
    Mapped s.emuEng p ∨ ∃ r ∈ s.memReserves, r.Covers p := by
  rcases mem_usedPages.mp h with ⟨m, hm, hp⟩ | ⟨r, hr, hp⟩
  · obtain ⟨hl, hu, _⟩ := mem_pageSteps.mp hp
    exact Or.inl (mapped_iff.mpr ⟨m, hm, hl, hu.le⟩)
  · obtain ⟨hl, hu, _⟩ := mem_pageSteps.mp hp
    exact Or.inr ⟨r, hr, hl, hu⟩

theorem not_unused_of_point {s : MemoryManager ε} {b total p : Nat} (h : p ∈ s.usedPages)
    (hb : b ≤ p) (ht : p < b + total) : ¬s.Unused b total := by
  intro hun
  obtain ⟨hm, hr⟩ := hun p hb ht
  rcases usedPages_used h with hp | ⟨r, hin, hc⟩
  · exact hm hp
  · exact hr r hin hc

variable [LawfulPageEngine ε]

theorem Listed.mem_usedPages {s : MemoryManager ε} {page : Nat} (h : s.Listed page) (hp : PageAligned page) :
    page ∈ s.usedPages := by
  rcases h with hm | ⟨r, hr, hbase, hc⟩
  · obtain ⟨m, hin, hc⟩ := mapped_iff.mp hm
    obtain ⟨hf, hl, _⟩ := LawfulPageEngine.valid _ m hin
    refine MemoryManager.mem_usedPages.mpr (Or.inl ⟨m, hin, ?_⟩)
    simp only [mem_pageSteps, Region.Covers, PageAligned, pageSize] at *
    omega
  · have hstep := pageOf_mem_pageSteps hbase hc.1 hc.2
    have hpage : pageOf page = page := by
      have h0 : page % pageSize = 0 := hp
      rw [pageOf, h0, Nat.sub_zero]
    rw [hpage] at hstep
    exact MemoryManager.mem_usedPages.mpr (Or.inr ⟨r, hr, hstep⟩)

/-- A point of the list off the page grid is a byte of a reserved range. -/
theorem reserved_of_offGrid {s : MemoryManager ε} {p : Nat} (h : p ∈ s.usedPages) (hoff : ¬PageAligned p) :
    ∃ r ∈ s.memReserves, r.Covers p := by
  rcases mem_usedPages.mp h with ⟨m, hm, hp⟩ | ⟨r, hr, hp⟩
  · exact absurd (pageAligned_of_mem_pageSteps (LawfulPageEngine.valid _ m hm).1 hp) hoff
  · obtain ⟨hl, hu, _⟩ := mem_pageSteps.mp hp
    exact ⟨r, hr, hl, hu⟩

/-- A base on the page grid before which no free range begins. -/
structure Reached (s : MemoryManager ε) (total start base : Nat) : Prop where
  aligned : PageAligned base
  start_le : start ≤ base
  least : ∀ b, PageAligned b → start ≤ b → b < base → ¬s.Unused b total

omit [LawfulPageEngine ε] in
/-- The search comes to the page of a used byte in the range that it tries. -/
theorem Reached.searched {s : MemoryManager ε} {total start base a : Nat} (h : s.Reached total start base)
    (hl : base ≤ a) (hu : a < base + total) (hused : Mapped s.emuEng a ∨ ∃ r ∈ s.memReserves, r.Covers a) :
    s.Searched total start (pageOf a) := by
  have hbase : base ≤ pageOf a := h.aligned.le_pageOf.mpr hl
  refine ⟨pageOf_aligned a, h.start_le.trans hbase, fun b hb hstart hle hfree => ?_⟩
  by_cases hlt : b < base
  · exact h.least b hb hstart hlt hfree
  · obtain ⟨hm, hr⟩ := hfree a (hle.trans (pageOf_le a)) (by omega)
    rcases hused with hmapped | ⟨r, hin, hc⟩
    · exact hm hmapped
    · exact hr r hin hc

/-- Where the reservations are listed, the search stays on the page grid. -/
theorem Reached.step {s : MemoryManager ε} {total start base point : Nat} (h : s.Reached total start base)
    (hk : s.ReservesListed total start) (hp : FirstPoint s.usedPages total base point) :
    s.Reached total start (point + pageSize) := by
  obtain ⟨hin, hl, hu, hleast⟩ := hp
  have hpage : base ≤ pageOf point := h.aligned.le_pageOf.mpr hl
  have haligned : PageAligned point := by
    by_contra hoff
    obtain ⟨r, hr, hc⟩ := reserved_of_offGrid hin hoff
    have hlisted := hk _ (h.searched hl hu (Or.inr ⟨r, hr, hc⟩)) r hr point hc rfl
    have hle := hleast _ (hlisted.mem_usedPages (pageOf_aligned point)) hpage
    have heq : point = pageOf point := Nat.le_antisymm hle (pageOf_le point)
    exact hoff (heq ▸ pageOf_aligned point)
  have hpos : 0 < pageSize := by decide
  refine ⟨haligned.add pageAligned_pageSize, by have := h.start_le; omega, fun b hb hstart hlt hfree => ?_⟩
  by_cases hbase : b < base
  · exact h.least b hb hstart hbase hfree
  · have hle : b ≤ point := by
      by_contra hgt
      have := haligned.add_page_le hb (by omega)
      omega
    exact not_unused_of_point hin hle (by omega) hfree

/-- A search is right where the reservations are listed. -/
theorem ReservesListed.searchLaw {s : MemoryManager ε} {size start : Nat}
    (hk : s.ReservesListed (pageTotal size) (pageOf start)) :
    SearchLaw s size start (skipPages (pageTotal size) s.usedPages (pageOf start)) (pageTotal size) := by
  have hstart : s.Reached (pageTotal size) (pageOf start) (pageOf start) :=
    ⟨pageOf_aligned start, le_rfl, fun b _ hl hu => by omega⟩
  obtain ⟨hend, hnone⟩ := skipPages_rule s.usedPages_sorted (fun base point hb hp => hb.step hk hp) hstart
  generalize skipPages (pageTotal size) s.usedPages (pageOf start) = base at hend hnone ⊢
  have hfree : ∀ a, base ≤ a → a < base + pageTotal size → pageOf a ∉ s.usedPages := by
    intro a hl hu hin
    have hpage : base ≤ pageOf a := hend.aligned.le_pageOf.mpr hl
    have := hnone _ hin hpage
    have := pageOf_le a
    omega
  refine {
    base_aligned := hend.aligned
    total_aligned := pageTotal_aligned size
    size_le := max_le (le_pageTotal size) (pageSize_le_pageTotal size)
    start_le := hend.start_le
    unused := fun a hl hu => ⟨fun hm => ?_, fun r hr hc => ?_⟩
    least := hend.least }
  · obtain ⟨m, hm, hc⟩ := mapped_iff.mp hm
    obtain ⟨hf, hlast, _⟩ := LawfulPageEngine.valid _ m hm
    refine hfree a hl hu (mem_usedPages.mpr (Or.inl ⟨m, hm, ?_⟩))
    simp only [mem_pageSteps, Region.Covers, PageAligned, pageOf, pageSize] at *
    omega
  · have hlisted := hk _ (hend.searched hl hu (Or.inr ⟨r, hr, hc⟩)) r hr a hc rfl
    exact hfree a hl hu (hlisted.mem_usedPages (pageOf_aligned a))

omit [LawfulPageEngine ε] in
theorem StandsAlone.offGrid {s : MemoryManager ε} {total page : Nat} {r : MemMap} (h : s.StandsAlone total page r) :
    ¬PageAligned r.base := by
  intro hbase
  obtain ⟨a, hc, rfl⟩ := h.touches
  have hle : r.base ≤ pageOf a := hbase.le_pageOf.mpr hc.1
  have hlt : pageOf a < r.base + r.size := lt_of_le_of_lt (pageOf_le a) hc.2
  exact h.unlisted (Or.inr ⟨r, h.reserve, hbase, hle, hlt⟩)

omit [LawfulPageEngine ε] in
/-- From the page to the end of the reservation no point of the list is on the page grid. -/
theorem StandsAlone.not_mem_usedPages {s : MemoryManager ε} {total page : Nat} {r : MemMap}
    (h : s.StandsAlone total page r) {p : Nat} (hp : PageAligned p) (hl : page ≤ p) (hu : p < r.base + r.size) :
    p ∉ s.usedPages := by
  intro hin
  obtain ⟨hm, hr⟩ := h.alone p hl (by omega)
  rcases mem_usedPages.mp hin with ⟨m, hreg, hstep⟩ | ⟨r', hin', hstep⟩
  · obtain ⟨h1, h2, _⟩ := mem_pageSteps.mp hstep
    exact hm (mapped_iff.mpr ⟨m, hreg, h1, h2.le⟩)
  · obtain ⟨h1, h2, h3⟩ := mem_pageSteps.mp hstep
    have heq := hr r' hin' ⟨h1, h2⟩
    subst heq
    refine h.offGrid ?_
    simp only [PageAligned, pageSize] at *
    omega

omit [LawfulPageEngine ε] in
/-- A search that comes to a reservation which stands alone off the page grid ends at a wrong base. -/
theorem StandsAlone.not_searchLaw {s : MemoryManager ε} {size start page : Nat} {r : MemMap}
    (hsearched : s.Searched (pageTotal size) (pageOf start) page) (h : s.StandsAlone (pageTotal size) page r) :
    ¬SearchLaw s size start (skipPages (pageTotal size) s.usedPages (pageOf start)) (pageTotal size) := by
  intro hlaw
  have hfrom : ∀ base point, base = pageOf start ∨ (∃ p ∈ s.usedPages, base = p + pageSize) →
      FirstPoint s.usedPages (pageTotal size) base point →
      point + pageSize = pageOf start ∨ ∃ p ∈ s.usedPages, point + pageSize = p + pageSize :=
    fun base point _ hp => Or.inr ⟨point, hp.1, rfl⟩
  obtain ⟨hend, -⟩ := skipPages_rule s.usedPages_sorted hfrom (Or.inl rfl)
  generalize skipPages (pageTotal size) s.usedPages (pageOf start) = base at hend hlaw
  have hpos : 0 < pageSize := by decide
  have htotal := pageSize_le_pageTotal size
  obtain ⟨a, hc, ha⟩ := h.touches
  have hpage : page < base := by
    by_contra hle
    exact hsearched.busy base hlaw.base_aligned hlaw.start_le (by omega) hlaw.unused
  have hnext := hsearched.aligned.add_page_le hlaw.base_aligned hpage
  have haLt := lt_pageOf_add a
  rw [ha] at haLt
  -- The base is past the reservation, in the page right behind it.
  have hpast : r.base + r.size ≤ base := by
    by_contra hlt
    have hcover : r.Covers base := ⟨by have := hc.1; omega, by omega⟩
    exact (hlaw.unused base le_rfl (by omega)).2 r h.reserve hcover
  have hsize : a < r.base + r.size := hc.2
  have hlast : page ≤ pageOf (r.base + r.size - 1) :=
    hsearched.aligned.le_pageOf.mpr (by have := pageOf_le a; omega)
  have hlastLe := pageOf_le (r.base + r.size - 1)
  have hlastLt := lt_pageOf_add (r.base + r.size - 1)
  have hlastAligned := pageOf_aligned (r.base + r.size - 1)
  have hnextLe := hlastAligned.add_page_le hlaw.base_aligned (by omega)
  have hfree : s.Unused (pageOf (r.base + r.size - 1) + pageSize) (pageTotal size) := by
    intro b hl hu
    obtain ⟨hm, hr⟩ := h.alone b (by omega) (by omega)
    refine ⟨hm, fun r' hin hcover => ?_⟩
    have heq := hr r' hin hcover
    subst heq
    have := hcover.2
    omega
  have hbase : base = pageOf (r.base + r.size - 1) + pageSize := by
    by_contra hne
    have hstart := hsearched.start_le
    exact hlaw.least _ (hlastAligned.add pageAligned_pageSize) (by omega) (by omega) hfree
  rcases hend with hstart | ⟨p, hp, heq⟩
  · have := hsearched.start_le
    omega
  · have hpoint : p = pageOf (r.base + r.size - 1) := by omega
    rw [hpoint] at hp
    exact h.not_mem_usedPages hlastAligned hlast (by omega) hp

/-- A search is right where the reservations to which it comes are listed, and wrong where one that is not
listed stands alone. -/
theorem firstValidRange_law {env : MemEnv} {s : MemoryManager ε} {size : Nat} {addr : Option Nat}
    {base total : Nat} (h : firstValidRange env s size addr = .ok (base, total)) :
    (s.ReservesListed total (pageOf (addr.getD s.allocBase)) → SearchLaw s size (addr.getD s.allocBase) base total) ∧
      ∀ page r, s.Searched total (pageOf (addr.getD s.allocBase)) page → s.StandsAlone total page r →
        ¬SearchLaw s size (addr.getD s.allocBase) base total := by
  obtain ⟨rfl, rfl⟩ := firstValidRange_cases h
  exact ⟨ReservesListed.searchLaw, fun page r hsearched halone => halone.not_searchLaw hsearched⟩

def anyEnv : MemEnv := ⟨none, none, false, none⟩

/-- A range that is reserved where no page begins. -/
def offGridReserve : MemoryManager RegionEngine :=
  (memReserve anyEnv (init emptyEngine) { size := 0x1000, base := some 0x1800 }).2

/-- A page is mapped, and a part of it is reserved. A range behind it is reserved, and one far away off the
page grid. -/
def crowded : MemoryManager RegionEngine where
  maps := []
  memReserves := [MemMap.init 0x10800 0x100 none none 0 0x10800 0 false none,
    MemMap.init 0x11000 0x1800 none none 0 0x11000 0 false none,
    MemMap.init 0x40800 0x1000 none none 0 0x40800 0 false none]
  blockBase := 0
  blockSize := 0
  blockOffset := 0
  allocBase := allocationGranularity
  emuEng := ⟨[⟨0x10000, 0x10FFF, 7⟩], by decide, by decide⟩

theorem crowded_mapped {a : Nat} : Mapped crowded.emuEng a ↔ 0x10000 ≤ a ∧ a ≤ 0x10FFF := by
  show Mapped (⟨[⟨0x10000, 0x10FFF, 7⟩], _, _⟩ : RegionEngine) a ↔ _
  rw [mapped_iff]
  exact ⟨fun ⟨m, hm, hc⟩ => (List.mem_singleton.mp hm ▸ hc : Region.Covers ⟨0x10000, 0x10FFF, 7⟩ a),
    fun h => ⟨_, List.mem_singleton_self _, h⟩⟩

theorem crowded_reserved {a : Nat} : (∃ r ∈ crowded.memReserves, r.Covers a) ↔
    (0x10800 ≤ a ∧ a < 0x10900) ∨ (0x11000 ≤ a ∧ a < 0x12800) ∨ (0x40800 ≤ a ∧ a < 0x41800) := by
  simp [crowded, MemMap.init, MemMap.Covers]

theorem crowded_unused : crowded.Unused 0x13000 0x2000 := by
  intro a hl hu
  constructor
  · rw [crowded_mapped]
    omega
  · intro r hr hc
    have hused := crowded_reserved.mp ⟨r, hr, hc⟩
    omega

/-- The search passes the listed pages, and does not come to the range that is off the page grid. -/
theorem firstValidRange_law_crowded : SearchLaw crowded 0x1800 0x10000 0x13000 0x2000 := by
  have h : firstValidRange anyEnv crowded 0x1800 none = .ok (0x13000, 0x2000) := by decide +kernel
  refine (firstValidRange_law h).1 fun page hpage r hr a hc ha => ?_
  have hstart : 0x10000 ≤ page := hpage.start_le
  have hend : page < 0x13000 := by
    by_contra hle
    exact hpage.busy 0x13000 (by decide) (by decide) (by omega) crowded_unused
  by_cases hfirst : page ≤ 0x10FFF
  · exact Or.inl (crowded_mapped.mpr ⟨hstart, hfirst⟩)
  · have hsecond := hpage.aligned
    refine Or.inr ⟨MemMap.init 0x11000 0x1800 none none 0 0x11000 0 false none, by simp [crowded], by decide, ?_⟩
    simp only [PageAligned, pageSize, MemMap.Covers, MemMap.init] at *
    omega

/-- The range found begins where no page begins. -/
theorem firstValidRange_not_law :
    firstValidRange anyEnv offGridReserve 0x1000 (some 0x1000) = .ok (0x2800, 0x1000) ∧
      ¬SearchLaw offGridReserve 0x1000 0x1000 0x2800 0x1000 :=
  ⟨by decide, fun h => absurd h.base_aligned (by decide)⟩

end MemoryManager

end Speakeasy
