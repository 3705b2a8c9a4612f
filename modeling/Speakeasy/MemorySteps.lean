import Speakeasy.ValidRanges
import Speakeasy.BlockLayout

namespace Speakeasy

section

open PageEngine

def MemMap.extent (m : MemMap) : Extent := ⟨m.base, m.size, m.blockBase, m.blockSize⟩

@[simp] theorem MemMap.extent_covers {m : MemMap} {a : Nat} : m.extent.Covers a ↔ m.Covers a := Iff.rfl

@[simp] theorem MemMap.init_extent (base size : Nat) (tag : Option PyStr) (prot : Option Nat)
    (flags blockBase blockSize : Nat) (shared : Bool) (process : Option Nat) :
    (MemMap.init base size tag prot flags blockBase blockSize shared process).extent =
      ⟨base, size, blockBase, blockSize⟩ := rfl

namespace EmuEngine

variable {ε : Type} [PageEngine ε] [LawfulPageEngine ε]

theorem memMap_mapped {e : ε} {base size : Nat} (perms : Nat) (h : PageRange base size)
    (hf : ∀ a, base ≤ a → a < base + size → ¬Mapped e a) :
    ∃ e', EmuEngine.memMap e base size perms = .ok e' ∧
      ∀ a, Mapped e' a ↔ (base ≤ a ∧ a < base + size) ∨ Mapped e a := by
  obtain ⟨e', he, hp⟩ := LawfulPageEngine.memMap_exact e (ucPerms perms) h hf
  refine ⟨e', he, fun a => ?_⟩
  by_cases ha : base ≤ a ∧ a < base + size <;> simp [Mapped, hp a, ha]

theorem memUnmap_mapped {e : ε} {base size : Nat} (h : PageRange base size)
    (hm : ∀ a, base ≤ a → a < base + size → Mapped e a) :
    ∃ e', EmuEngine.memUnmap e base size = .ok e' ∧
      ∀ a, Mapped e' a ↔ ¬(base ≤ a ∧ a < base + size) ∧ Mapped e a := by
  obtain ⟨e', he, hp⟩ := LawfulPageEngine.memUnmap_exact e h hm
  refine ⟨e', he, fun a => ?_⟩
  by_cases ha : base ≤ a ∧ a < base + size <;> simp [Mapped, hp a, ha]

end EmuEngine

namespace MemoryManager

variable {ε : Type} [PageEngine ε]

/-- The allocations, the mapped bytes and the shared page block as blocks and extents. -/
def layout (s : MemoryManager ε) : Layout where
  extents := s.maps.map MemMap.extent
  mapped := Mapped s.emuEng
  cursor := if s.blockBase = 0 then none else some ⟨s.blockBase, s.blockSize, s.blockOffset⟩

/-- The invariant of the memory manager, where `outside` is what the engine had mapped before. -/
structure Inv (outside : Nat → Prop) (s : MemoryManager ε) : Prop where
  reserves : s.ReservesAligned
  sound : s.layout.Sound outside
  blockSize_le : s.blockSize ≤ pageSize
  cursor_page : s.blockBase ≠ 0 → s.blockSize = pageSize ∧ PageAligned s.blockBase
  block_range : ∀ m ∈ s.maps, PageRange m.blockBase m.blockSize
  block_shape : ∀ m ∈ s.maps, (m.base = m.blockBase ∧ m.size = m.blockSize) ∨ m.blockSize = pageSize

variable {outside : Nat → Prop} {s : MemoryManager ε}

theorem layout_cursor (h : s.blockBase ≠ 0) :
    s.layout.cursor = some ⟨s.blockBase, s.blockSize, s.blockOffset⟩ := if_neg h

theorem inv_init (e : ε) : (MemoryManager.init e).Inv (Mapped e) := by
  refine ⟨by simp [ReservesAligned, init], Layout.sound_empty fun _ h => h, Nat.zero_le _, ?_,
    by simp [init], by simp [init]⟩
  intro h
  exact absurd rfl h

theorem Inv.extent_inside (h : s.Inv outside) {m : MemMap} (hm : m ∈ s.maps) :
    m.extent.Inside := h.sound.inside _ (List.mem_map_of_mem hm)

theorem Inv.block_mapped (h : s.Inv outside) {m : MemMap} (hm : m ∈ s.maps) {a : Nat}
    (hl : m.blockBase ≤ a) (hu : a < m.blockBase + m.blockSize) : Mapped s.emuEng a :=
  h.sound.mapped _ (List.mem_map_of_mem hm) a ⟨hl, hu⟩

theorem Inv.covers_mapped (h : s.Inv outside) {m : MemMap} (hm : m ∈ s.maps) {a : Nat}
    (ha : m.Covers a) : Mapped s.emuEng a :=
  h.sound.mapped _ (List.mem_map_of_mem hm) a ((h.extent_inside hm).blockCovers ha)

theorem Inv.maps_apart (h : s.Inv outside) :
    s.maps.Pairwise (fun m n => ∀ a, ¬(m.Covers a ∧ n.Covers a)) := by
  refine (List.pairwise_map.mp h.sound.apart).imp ?_
  intro m n hmn a ⟨hm, hn⟩
  simp only [Extent.Apart, MemMap.extent, MemMap.Covers] at *
  omega

theorem Inv.bases_distinct (h : s.Inv outside) :
    s.maps.Pairwise (fun m n => m.base ≠ n.base) := by
  refine h.maps_apart.imp_of_mem ?_
  intro m n hm hn hmn heq
  refine hmn m.base ⟨(h.extent_inside hm).covers_base, ?_⟩
  rw [heq]
  exact (h.extent_inside hn).covers_base

/-- Allocations with different bases do not overlap. -/
theorem Inv.apart_of_base_ne (h : s.Inv outside) {m n : MemMap} (hm : m ∈ s.maps) (hn : n ∈ s.maps)
    (hne : m.base ≠ n.base) : m.base + m.size ≤ n.base ∨ n.base + n.size ≤ m.base := by
  have : Std.Symm Extent.Apart := ⟨fun _ _ h => h.symm⟩
  refine h.sound.apart.forall (List.mem_map_of_mem hm) (List.mem_map_of_mem hn) fun heq => hne ?_
  exact (Extent.mk.inj heq).1

omit [PageEngine ε] in
theorem mem_of_getAddressMap {s : MemoryManager ε} {a : Nat} {m : MemMap}
    (h : s.getAddressMap a = some m) : m ∈ s.maps ∧ m.Covers a :=
  ⟨List.mem_of_find?_eq_some h, by simpa using List.find?_some h⟩

@[simp] theorem setFree_extents (a : Nat) (ms : List MemMap) :
    (setFree a ms).map MemMap.extent = ms.map MemMap.extent := by
  induction ms with
  | nil => rfl
  | cons m ms ih =>
    rw [setFree]
    split
    · rfl
    · simp [ih]

/-- The invariant looks at the extents, the mapped bytes, the reservations and the cursor only. -/
theorem Inv.congr (h : s.Inv outside) {s' : MemoryManager ε}
    (he : s'.maps.map MemMap.extent = s.maps.map MemMap.extent)
    (hm : ∀ a, Mapped s'.emuEng a ↔ Mapped s.emuEng a) (hr : s'.memReserves = s.memReserves)
    (hb : s'.blockBase = s.blockBase) (hs : s'.blockSize = s.blockSize)
    (ho : s'.blockOffset = s.blockOffset) : s'.Inv outside := by
  have hl : s'.layout = s.layout := by
    simp only [MemoryManager.layout, he, hb, hs, ho]
    congr 1
    funext a
    exact propext (hm a)
  have hmem : ∀ m' ∈ s'.maps, ∃ m ∈ s.maps, m.extent = m'.extent := fun m' hm' =>
    List.mem_map.mp (he ▸ List.mem_map_of_mem hm')
  refine ⟨fun r hr' => h.reserves r (hr ▸ hr'), hl ▸ h.sound, hs ▸ h.blockSize_le,
    by rw [hb, hs]; exact h.cursor_page, fun m' hm' => ?_, fun m' hm' => ?_⟩
  · obtain ⟨m, hm, heq⟩ := hmem m' hm'
    simp only [MemMap.extent, Extent.mk.injEq] at heq
    rw [← heq.2.2.1, ← heq.2.2.2]
    exact h.block_range m hm
  · obtain ⟨m, hm, heq⟩ := hmem m' hm'
    simp only [MemMap.extent, Extent.mk.injEq] at heq
    rw [← heq.1, ← heq.2.1, ← heq.2.2.1, ← heq.2.2.2]
    exact h.block_shape m hm

theorem mem_setFree_of_find_ne {a : Nat} {ms : List MemMap} {m : MemMap} (hm : m ∈ ms)
    (hf : ms.find? (fun x => decide (x.Covers a)) ≠ some m) : m ∈ setFree a ms := by
  induction ms with
  | nil => simp at hm
  | cons x ms ih =>
    rw [setFree]
    split
    next hx =>
      rcases List.mem_cons.mp hm with rfl | hm
      · simp [hx] at hf
      · exact List.mem_cons_of_mem _ hm
    next hx =>
      rcases List.mem_cons.mp hm with rfl | hm
      · exact List.mem_cons_self
      · exact List.mem_cons_of_mem _ (ih hm (by simpa [hx] using hf))

/-- When no two allocations share a byte, only the one that holds the address changes. -/
theorem of_mem_setFree {a : Nat} {ms : List MemMap} {m : MemMap}
    (hp : ms.Pairwise (fun m n => ∀ a, ¬(m.Covers a ∧ n.Covers a))) (hm : m ∈ setFree a ms) :
    (∃ x, ms.find? (fun x => decide (x.Covers a)) = some x ∧ m = { x with free := true }) ∨
      (m ∈ ms ∧ ¬m.Covers a) := by
  induction ms with
  | nil => simp [setFree] at hm
  | cons x ms ih =>
    obtain ⟨hx, hp⟩ := List.pairwise_cons.mp hp
    rw [setFree] at hm
    split at hm
    next hc =>
      rcases List.mem_cons.mp hm with rfl | hm
      · exact Or.inl ⟨x, by simp [hc], rfl⟩
      · exact Or.inr ⟨by simp [hm], fun h => hx m hm a ⟨hc, h⟩⟩
    next hc =>
      rcases List.mem_cons.mp hm with rfl | hm
      · exact Or.inr ⟨by simp, hc⟩
      · rcases ih hp hm with ⟨y, hy, rfl⟩ | ⟨h1, h2⟩
        · exact Or.inl ⟨y, by simp [hc, hy], rfl⟩
        · exact Or.inr ⟨by simp [h1], h2⟩

theorem eraseP_base {ms : List MemMap} (hp : ms.Pairwise (fun m n => m.base ≠ n.base)) (b : Nat) :
    ms.eraseP (fun x => x.base == b) = ms.filter (fun x => x.base != b) := by
  induction ms with
  | nil => rfl
  | cons m ms ih =>
    obtain ⟨hm, hp⟩ := List.pairwise_cons.mp hp
    by_cases h : m.base = b
    · have hall : ∀ x ∈ ms, (x.base != b) = true := by
        intro x hx
        have := hm x hx
        simp only [bne_iff_ne]
        omega
      simp [h, List.filter_eq_self.mpr hall]
    · simp [h, ih hp]

theorem removeMaps_eq_filter {ms : List MemMap} (hp : ms.Pairwise (fun m n => m.base ≠ n.base))
    (ml : List MemMap) :
    removeMaps ms ml = ms.filter (fun x => ml.all (fun m => x.base != m.base)) := by
  unfold removeMaps
  induction ml generalizing ms with
  | nil => simp
  | cons m ml ih =>
    rw [List.foldl_cons, eraseP_base hp, ih (hp.sublist List.filter_sublist), List.filter_filter]
    congr 1
    funext x
    simp [Bool.and_comm]

/-- Removing the allocations of one block, one by one by base, leaves those of the other blocks. -/
theorem removeMaps_block {ms : List MemMap} (hp : ms.Pairwise (fun m n => m.base ≠ n.base))
    (b : Nat) :
    removeMaps ms (ms.filter (fun m => m.blockBase == b)) =
      ms.filter (fun m => m.blockBase != b) := by
  rw [removeMaps_eq_filter hp]
  apply List.filter_congr
  intro x hx
  rw [Bool.eq_iff_iff]
  simp only [List.all_eq_true, List.mem_filter, beq_iff_eq, bne_iff_ne, ne_eq, and_imp]
  constructor
  · exact fun h heq => h x hx heq rfl
  · intro hne y hy hyb heq
    have hnodup : (ms.map MemMap.base).Nodup := List.pairwise_map.mpr hp
    exact hne (List.inj_on_of_nodup_map hnodup hx hy heq ▸ hyb)

end MemoryManager

end

section

open PageEngine

namespace MemoryManager

variable {ε : Type} [PageEngine ε]

variable {outside : Nat → Prop} {s : MemoryManager ε}

theorem Inv.closeCursor (h : s.Inv outside) (allocBase blockOffset : Nat) :
    Inv outside { s with allocBase := allocBase, blockBase := 0, blockOffset := blockOffset } :=
  { h with
    sound := h.sound.closeCursor
    cursor_page := fun hn => absurd rfl hn }

theorem Inv.setReserves (h : s.Inv outside) {rs : List MemMap}
    (hr : ∀ r ∈ rs, PageAligned r.base) : Inv outside { s with memReserves := rs } :=
  { h with reserves := hr }

theorem Inv.setFree (h : s.Inv outside) (a : Nat) :
    Inv outside { s with maps := MemoryManager.setFree a s.maps } :=
  h.congr (by simp) (fun _ => Iff.rfl) rfl rfl rfl rfl

theorem takeFromBlock_inv (h : s.Inv outside) (hb : s.blockBase ≠ 0) {a : MapArgs}
    {size : Nat} (hpos : 0 < size) (hfit : s.blockOffset + size ≤ pageSize)
    (process : Option Nat) : (takeFromBlock s a size process).2.Inv outside := by
  obtain ⟨hs, hr⟩ := h.cursor_page hb
  have hcarve := h.sound.carve (layout_cursor hb) hpos (by simpa [hs] using hfit)
  refine { h with sound := ?_, block_range := fun m hm => ?_, block_shape := fun m hm => ?_ }
  · simpa [takeFromBlock, layout, hb] using hcarve
  · rcases List.mem_append.mp hm with hm | hm
    · exact h.block_range m hm
    · cases List.mem_singleton.mp hm
      exact ⟨hr, by simp [MemMap.init, hs, pageAligned_pageSize], by simp [MemMap.init, hs, pageSize]⟩
  · rcases List.mem_append.mp hm with hm | hm
    · exact h.block_shape m hm
    · cases List.mem_singleton.mp hm
      exact Or.inr hs

/-- A fresh page becomes the shared block and gets its first allocation. -/
theorem openBlock_inv (h : s.Inv outside) {base : Nat} (hr : PageRange base pageSize)
    (hu : s.Unused base pageSize) {eng : ε}
    (hm : ∀ a, Mapped eng a ↔ (base ≤ a ∧ a < base + pageSize) ∨ Mapped s.emuEng a) {a : MapArgs}
    {size : Nat} (hpos : 0 < size) (hfit : size ≤ pageSize) (process : Option Nat) :
    (takeFromBlock { s with blockBase := base, blockSize := pageSize, blockOffset := 0, emuEng := eng }
      a size process).2.Inv outside := by
  have hopen := h.sound.openBlock hpos hfit (fun a hl hu' => (hu a hl hu').1) hm
  refine ⟨h.reserves, ?_, le_rfl, fun _ => ⟨rfl, hr.base_aligned⟩, fun m hm => ?_, fun m hm => ?_⟩
  · by_cases hb : base = 0
    · -- A block at address 0 counts as no block: the next small allocation opens another one.
      simpa [takeFromBlock, layout, hb] using hopen.closeCursor
    · simpa [takeFromBlock, layout, hb] using hopen
  · rcases List.mem_append.mp hm with hm | hm
    · exact h.block_range m hm
    · cases List.mem_singleton.mp hm
      exact hr
  · rcases List.mem_append.mp hm with hm | hm
    · exact h.block_shape m hm
    · cases List.mem_singleton.mp hm
      exact Or.inr rfl

theorem addBlock_inv (h : s.Inv outside) {base size : Nat} (hr : PageRange base size)
    (hu : s.Unused base size) {eng : ε}
    (hm : ∀ a, Mapped eng a ↔ (base ≤ a ∧ a < base + size) ∨ Mapped s.emuEng a) {mm : MemMap}
    (hmm : mm.extent = ⟨base, size, base, size⟩) :
    Inv outside { s with emuEng := eng, maps := s.maps ++ [mm] } := by
  have hadd := h.sound.addBlock hr.size_pos le_rfl (fun a hl hu' => (hu a hl hu').1) hm
  simp only [MemMap.extent, Extent.mk.injEq] at hmm
  obtain ⟨h1, h2, h3, h4⟩ := hmm
  refine { h with sound := ?_, block_range := fun m hm => ?_, block_shape := fun m hm => ?_ }
  · simpa [layout, MemMap.extent, h1, h2, h3, h4] using hadd
  · rcases List.mem_append.mp hm with hm | hm
    · exact h.block_range m hm
    · cases List.mem_singleton.mp hm
      rw [h3, h4]
      exact hr
  · rcases List.mem_append.mp hm with hm | hm
    · exact h.block_shape m hm
    · cases List.mem_singleton.mp hm
      exact Or.inl ⟨h1.trans h3.symm, h2.trans h4.symm⟩

theorem memUnreserve_inv (h : s.Inv outside) (base : Nat) : (memUnreserve s base).Inv outside :=
  h.setReserves (fun r hr => h.reserves r (List.mem_filter.mp hr).1)

/-- A small size with its padding to 16 bytes fits a page. -/
theorem small_size_le {size : Nat} (h : size < pageSize) :
    0 < size + (0x10 - size % 0x10) ∧ size + (0x10 - size % 0x10) ≤ pageSize := by
  simp only [pageSize] at *
  omega

variable [LawfulPageEngine ε]

/-- The engine maps the range that `get_valid_ranges` found. -/
theorem getValidRanges_map {env : MemEnv} (hr : s.ReservesAligned)
    {size : Nat} {addr : Option Nat} {base total : Nat}
    (h : getValidRanges env s size addr = .ok (base, total)) (perms : Nat) :
    ∃ eng, EmuEngine.memMap s.emuEng base total perms = .ok eng ∧
      ∀ a, Mapped eng a ↔ (base ≤ a ∧ a < base + total) ∨ Mapped s.emuEng a := by
  obtain ⟨hp, _, hu⟩ := getValidRanges_spec hr h
  exact EmuEngine.memMap_mapped perms hp (fun a hl hu' => (hu a hl hu').1)

theorem memMapLarge_inv {env : MemEnv} (h : s.Inv outside) (a : MapArgs)
    (process : Option Nat) : (memMapLarge env s a process).2.Inv outside := by
  unfold memMapLarge
  cases hv : getValidRanges env s a.size a.base with
  | error e => exact h
  | ok r =>
    obtain ⟨base, total⟩ := r
    obtain ⟨eng, he, hm⟩ := getValidRanges_map h.reserves hv a.perms
    obtain ⟨hp, _, hu⟩ := getValidRanges_spec h.reserves hv
    simp only [he]
    apply addBlock_inv h hp hu hm
    -- A whole page range is never smaller than the shared block, so it is its own block.
    have hle : s.blockSize ≤ total := h.blockSize_le.trans
      ((getValidRanges_total hv) ▸ pageSize_le_pageTotal a.size)
    simp only [MemMap.init_extent, Extent.mk.injEq, true_and]
    split <;> omega

theorem memMapSmall_inv {env : MemEnv} (h : s.Inv outside) {a : MapArgs}
    (ha : a.size < pageSize) (process : Option Nat) : (memMapSmall env s a process).2.Inv outside := by
  obtain ⟨hpos, hfit⟩ := small_size_le ha
  by_cases hn : s.blockBase = 0 ∨
      s.blockBase + pageSize < s.blockBase + s.blockOffset + (a.size + (0x10 - a.size % 0x10))
  · simp only [memMapSmall, if_pos hn]
    cases hv : getValidRanges env s pageSize none with
    | error e => exact h
    | ok r =>
      obtain ⟨base, total⟩ := r
      obtain ⟨eng, he, hm⟩ := getValidRanges_map h.reserves hv permMemRwx
      obtain ⟨hp, _, hu⟩ := getValidRanges_spec h.reserves hv
      have ht : total = pageSize := (getValidRanges_total hv).trans pageTotal_pageSize
      subst ht
      simp only [he]
      exact openBlock_inv h hp hu hm hpos hfit process
  · simp only [memMapSmall, if_neg hn]
    simp only [not_or, not_lt] at hn
    exact takeFromBlock_inv h hn.1 hpos (by omega) process

theorem memMap_inv {env : MemEnv} (h : s.Inv outside) (a : MapArgs) :
    (memMap env s a).2.Inv outside := by
  unfold memMap
  split
  next ha => exact memMapSmall_inv h ha.2.1 _
  next => exact memMapLarge_inv h a _

/-- What a free can do: nothing, set the flag, or unmap the block with all its allocations. -/
theorem memFree_cases (env : MemEnv) (h : s.Inv outside) (base : Nat) :
    (s.getAddressMap base = none ∧ memFree env s base = (.ok (), s)) ∨
    ∃ mm, s.getAddressMap base = some mm ∧
      let maps := setFree base s.maps
      ((env.keepMemoryOnFree = true ∨ ∃ m ∈ maps, m.blockBase = mm.blockBase ∧ m.free = false) ∧
        memFree env s base = (.ok (), { s with maps := maps })) ∨
      (env.keepMemoryOnFree = false ∧ (∀ m ∈ maps, m.blockBase = mm.blockBase → m.free = true) ∧
        ∃ eng, (∀ a, Mapped eng a ↔
            ¬(mm.blockBase ≤ a ∧ a < mm.blockBase + mm.blockSize) ∧ Mapped s.emuEng a) ∧
          memFree env s base = (.ok (), { s with
            blockBase := 0
            emuEng := eng
            maps := maps.filter (fun m => m.blockBase != mm.blockBase) })) := by
  cases hg : s.getAddressMap base with
  | none => exact Or.inl ⟨rfl, by simp only [memFree, hg]⟩
  | some mm =>
    refine Or.inr ⟨mm, rfl, ?_⟩
    have hmm := (mem_of_getAddressMap hg).1
    have hfree := h.setFree base
    cases hk : env.keepMemoryOnFree with
    | true => exact Or.inl ⟨Or.inl rfl, by simp only [memFree, hg, hk, if_true]⟩
    | false =>
      by_cases hall : ((setFree base s.maps).filter (fun m => m.blockBase == mm.blockBase)).all
          MemMap.free
      · have hmapped : ∀ a, mm.blockBase ≤ a → a < mm.blockBase + mm.blockSize → Mapped s.emuEng a :=
          fun a hl hu => h.block_mapped hmm hl hu
        obtain ⟨eng, he, hm⟩ := EmuEngine.memUnmap_mapped (h.block_range mm hmm) hmapped
        refine Or.inr ⟨rfl, ?_, eng, hm, ?_⟩
        · intro m hm hb
          exact List.all_eq_true.mp hall m (List.mem_filter.mpr ⟨hm, by simp [hb]⟩)
        · simp only [memFree, hg, hk, hall, he, if_true]
          rw [removeMaps_block hfree.bases_distinct]
          simp
      · refine Or.inl ⟨Or.inr (by simpa using hall), ?_⟩
        simp only [memFree, hg, hk, hall]
        simp

theorem memFree_inv {env : MemEnv} (h : s.Inv outside) (base : Nat) :
    (memFree env s base).2.Inv outside := by
  rcases memFree_cases env h base with ⟨_, hs⟩ | ⟨mm, hg, hcase⟩
  · rw [hs]
    exact h
  · rcases hcase with ⟨_, hs⟩ | ⟨_, _, eng, hm, hs⟩
    · rw [hs]
      exact h.setFree base
    · rw [hs]
      have hfree := h.setFree base
      have hx : mm.extent ∈ s.layout.extents := List.mem_map_of_mem (mem_of_getAddressMap hg).1
      have hsub : ((setFree base s.maps).filter (fun m => m.blockBase != mm.blockBase)).map
          MemMap.extent |>.Sublist s.layout.extents := by
        have := (List.filter_sublist (l := setFree base s.maps)
          (p := fun m => m.blockBase != mm.blockBase)).map MemMap.extent
        simpa [layout] using this
      have hiff : ∀ y ∈ s.layout.extents, y ∈ ((setFree base s.maps).filter
          (fun m => m.blockBase != mm.blockBase)).map MemMap.extent ↔
            y.blockBase ≠ mm.extent.blockBase := by
        intro y hy
        have hy' : y ∈ (setFree base s.maps).map MemMap.extent := by simpa [layout] using hy
        obtain ⟨m, hm', rfl⟩ := List.mem_map.mp hy'
        constructor
        · intro hmem
          obtain ⟨n, hn, heq⟩ := List.mem_map.mp hmem
          rw [← heq]
          exact bne_iff_ne.mp (List.mem_filter.mp hn).2
        · exact fun hb => List.mem_map_of_mem (List.mem_filter.mpr ⟨hm', bne_iff_ne.mpr hb⟩)
      exact {
        reserves := h.reserves
        sound := h.sound.dropBlock hx hsub hiff hm
        blockSize_le := h.blockSize_le
        cursor_page := fun hn => absurd rfl hn
        block_range := fun m hm => hfree.block_range m (List.mem_filter.mp hm).1
        block_shape := fun m hm => hfree.block_shape m (List.mem_filter.mp hm).1 }

theorem memReserve_inv {env : MemEnv} (h : s.Inv outside) {a : ReserveArgs}
    (ha : ∀ base ∈ a.base, PageAligned base) : (memReserve env s a).2.Inv outside := by
  have hadd : ∀ base size, PageAligned base → Inv outside { s with memReserves := s.memReserves ++
      [MemMap.init base size a.tag a.perms a.flags base s.blockSize a.shared none] } := by
    intro base size hb
    apply h.setReserves
    intro r hr
    rcases List.mem_append.mp hr with hr | hr
    · exact h.reserves r hr
    · cases List.mem_singleton.mp hr
      exact hb
  unfold memReserve
  cases hb : a.base with
  | none =>
    cases hv : getValidRanges env s a.size none with
    | error e => exact h
    | ok r => exact hadd r.1 r.2 (getValidRanges_spec h.reserves hv).1.base_aligned
  | some base => exact hadd base a.size (ha base hb)

theorem memMapReserve_inv {env : MemEnv} (h : s.Inv outside) (mappedBase : Nat) :
    (memMapReserve env s mappedBase).2.Inv outside := by
  unfold memMapReserve
  split
  next => exact h
  next r hr =>
    have haligned : ∀ x ∈ s.memReserves.eraseP (fun x => x.base == r.base), PageAligned x.base :=
      fun x hx => h.reserves x (List.mem_of_mem_eraseP hx)
    exact memMap_inv (h.setReserves haligned) _

end MemoryManager

end

end Speakeasy
