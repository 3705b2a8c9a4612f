import Speakeasy.FileViews

namespace Speakeasy

open PageEngine MemoryManager

/-- The reserved range of the emulator ends at a page. -/
def MemEnv.ReservedAligned (env : MemEnv) : Prop := ∀ r ∈ env.emuReserved, PageAligned r.2

namespace MemoryManager

variable {ε : Type} [PageEngine ε] [LawfulPageEngine ε] {outside : Nat → Prop} {env : MemEnv}
  {s : MemoryManager ε}

/-- A range that a search gave is given again when the search starts at it. -/
theorem getValidRanges_again (hr : s.ReservesAligned) (he : env.ReservedAligned) {size size' : Nat}
    {addr : Option Nat} {base total base' total' : Nat} (hsize : pageTotal size' = total)
    (h : getValidRanges env s size addr = .ok (base, total))
    (h' : getValidRanges env s size' (some base) = .ok (base', total')) :
    base' = base ∧ total' = total := by
  have htotal := getValidRanges_total h
  have htotal' := getValidRanges_total h'
  obtain ⟨addr', hfirst⟩ := getValidRanges_cases h
  obtain ⟨-, hbase⟩ := firstValidRange_cases hfirst
  obtain ⟨haligned, -, hfree⟩ := @skipPages_spec (pageTotal size) _ s.usedPages_sorted
    (usedPages_aligned hr) _ (pageOf_aligned (addr'.getD s.allocBase))
  rw [htotal] at hbase
  rw [← hbase] at haligned hfree
  have hpage : pageOf base = base := by
    have haligned : base % pageSize = 0 := haligned
    unfold pageOf
    rw [haligned, Nat.sub_zero]
  rw [← htotal] at hfree
  have hskip : skipPages total s.usedPages base = base := skipPages_of_free hfree
  -- The first search from the base ends at once.
  have hagain : ∀ {b t}, firstValidRange env s size' (some base) = .ok (b, t) → b = base := by
    intro b t hb
    obtain ⟨ht, hb⟩ := firstValidRange_cases hb
    rw [hb, Option.getD_some, hpage, ht, hsize, hskip]
  refine ⟨?_, by rw [htotal', hsize]⟩
  unfold getValidRanges at h'
  split at h'
  next b t reserved reservedEnd hb hres =>
    have hbb := hagain hb
    split at h'
    next hover =>
      -- The range was not in the reserved one, or comes from the search past it.
      exfalso
      unfold getValidRanges at h
      rw [hres] at h
      have hend : PageAligned reservedEnd := he _ hres
      have hpast : reservedEnd ≤ base ∨ base + total ≤ reserved := by
        split at h
        next b₁ t₁ r₁ re₁ hf hreq =>
          cases hreq
          split at h
          next =>
            obtain ⟨-, hbase⟩ := firstValidRange_cases h
            have hend : reservedEnd % pageSize = 0 := hend
            have hle := (@skipPages_spec (pageTotal size) _ s.usedPages_sorted
              (usedPages_aligned hr) _ (pageOf_aligned reservedEnd)).2.1
            rw [Option.getD_some, htotal] at hbase
            rw [← hbase] at hle
            left
            unfold pageOf at hle
            rw [hend, Nat.sub_zero] at hle
            exact hle
          next hnot =>
            cases h
            omega
        next hnone => exact absurd rfl (hnone _ _ _ _ h)
      have ht : t = total := by
        rw [(firstValidRange_cases hb).1, hsize]
      omega
    next =>
      cases h'
      exact hbb
  next => exact hagain h'

/-- Mapping adds an allocation at the end, or none. -/
theorem memMap_maps (h : s.Inv outside) (a : MapArgs) :
    ∃ extra, (MemoryManager.memMap env s a).2.maps = s.maps ++ extra := by
  unfold memMap
  split
  next =>
    unfold memMapSmall
    by_cases hn : s.blockBase = 0 ∨
        s.blockBase + pageSize < s.blockBase + s.blockOffset + (a.size + (0x10 - a.size % 0x10))
    · simp only [if_pos hn]
      cases hv : getValidRanges env s pageSize none with
      | error e => exact ⟨[], (List.append_nil _).symm⟩
      | ok r =>
        obtain ⟨eng, hm, -⟩ := getValidRanges_map h.reserves hv permMemRwx
        simp only [hm]
        exact ⟨_, rfl⟩
    · simp only [if_neg hn]
      exact ⟨_, rfl⟩
  next =>
    unfold memMapLarge
    cases hv : getValidRanges env s a.size a.base with
    | error e => exact ⟨[], (List.append_nil _).symm⟩
    | ok r =>
      obtain ⟨eng, hm, -⟩ := getValidRanges_map h.reserves hv a.perms
      simp only [hm]
      exact ⟨_, rfl⟩

theorem memMap_based (h : s.Inv outside) {a : MapArgs} {base buf : Nat} (hbase : a.base = some base)
    {s' : MemoryManager ε} (hok : MemoryManager.memMap env s a = (.ok buf, s')) :
    ∃ mm, getValidRanges env s a.size (some base) = .ok (buf, mm.size) ∧ s'.maps = s.maps ++ [mm] ∧
      mm.base = buf ∧ mm.free = false ∧ mm.shared = a.shared := by
  unfold memMap at hok
  rw [if_neg (by simp [hbase])] at hok
  unfold memMapLarge at hok
  rw [hbase] at hok
  cases hv : getValidRanges env s a.size (some base) with
  | error e =>
    simp only [hv] at hok
    cases hok
  | ok r =>
    obtain ⟨b, total⟩ := r
    obtain ⟨eng, hm, -⟩ := getValidRanges_map h.reserves hv a.perms
    simp only [hv, hm] at hok
    obtain ⟨hbuf, hs⟩ := Prod.mk.inj hok
    cases hbuf
    exact ⟨_, rfl, by rw [← hs], rfl, rfl, rfl⟩

/-- Each call leaves the allocations that are not free, but the one that it frees. -/
theorem step_keeps {bases : List Nat} (h : s.Inv outside) (op : MemOp) {m : MemMap} (hm : m ∈ s.maps)
    (hfree : m.free = false) (hne : ∀ base, op = .memFree base → s.getAddressMap base ≠ some m) :
    m ∈ (MemSession.step env ⟨s, bases⟩ op).mgr.maps := by
  have hmap : ∀ {s' : MemoryManager ε} (a : MapArgs), s'.Inv outside → s'.maps = s.maps →
      m ∈ (MemoryManager.memMap env s' a).2.maps := by
    intro s' a hs' hmaps
    obtain ⟨extra, hextra⟩ : ∃ extra, (MemoryManager.memMap env s' a).2.maps = s'.maps ++ extra :=
      memMap_maps hs' a
    rw [hextra, hmaps]
    exact List.mem_append_left _ hm
  cases op with
  | memMap a => exact hmap a h rfl
  | memFree base => exact (freeKeepsOthers_of_inv h base m hm hfree (hne base rfl)).1
  | memReserve a =>
    show m ∈ (memReserve env s a).2.maps
    unfold memReserve
    cases a.base with
    | some base => exact hm
    | none =>
      cases getValidRanges env s a.size none with
      | error e => exact hm
      | ok r => exact hm
  | memUnreserve base => exact hm
  | memMapReserve base =>
    show m ∈ (memMapReserve env s base).2.maps
    unfold memMapReserve
    split
    next => exact hm
    next r hr =>
      have haligned : ∀ x ∈ s.memReserves.eraseP (fun x => x.base == r.base), PageAligned x.base :=
        fun x hx => h.reserves x (List.mem_of_mem_eraseP hx)
      exact hmap _ (h.setReserves haligned) rfl
  | enterAllocationsFrom base => exact hm
  | leaveAllocationsFrom =>
    cases bases with
    | nil => exact hm
    | cons previous rest => exact hm

end MemoryManager

namespace ViewSession

variable {ε : Type} [PageEngine ε] {outside : Nat → Prop} {env : MemEnv} {s : ViewSession ε}
  {content : Nat → Nat → UInt8}

/-- The live views show the contents of the mappings, by mapping and file offset. -/
def Reflects (content : Nat → Nat → UInt8) (s : ViewSession ε) : Prop :=
  ∀ v ∈ s.live, ∀ r < v.size, s.mem.bytes (v.base + r) = content v.mapping (v.offset + r)

theorem Placed.mapped_byte (h : Placed outside s) {v : LiveView} (hv : v ∈ s.live) {r : Nat}
    (hr : r < v.size) : Mapped s.mem.mgr.emuEng (v.base + r) := by
  have hrange := h.rangeMapped hv (Nat.le_refl _) (Nat.le_refl _)
  exact hrange r hr

omit [PageEngine ε] in
theorem mem_liveAfter {op : MemOp} {v : LiveView} (hv : v ∈ s.liveAfter op) : v ∈ s.live := by
  unfold liveAfter at hv
  split at hv
  next =>
    split at hv
    next => exact (List.mem_filter.mp hv).1
    next => exact hv
  next => exact hv

omit [PageEngine ε] in
theorem liveAfter_free {base : Nat} {v : LiveView} (hv : v ∈ s.liveAfter (.memFree base)) {mm : MemMap}
    (hmm : s.mem.mgr.getAddressMap base = some mm) : v.base ≠ mm.base := by
  unfold liveAfter at hv
  simp only [hmm] at hv
  simpa using (List.mem_filter.mp hv).2

omit [PageEngine ε] in
theorem liveAfter_sublist (op : MemOp) : (s.liveAfter op).Sublist s.live := by
  unfold liveAfter
  split
  next =>
    split
    next => exact List.filter_sublist
    next => exact List.Sublist.refl _
  next => exact List.Sublist.refl _

variable [LawfulPageEngine ε]

theorem Placed.memOp (h : Placed outside s) {op : MemOp} (hop : op.ReserveAligned) :
    Placed outside (s.memOp env op) where
  mgr := MemSession.step_inv (t := ⟨s.mem.mgr, s.bases⟩) h.mgr hop
  mapped v hv := by
    obtain ⟨m, hm, hmb, hms, hfree⟩ := h.mapped v (mem_liveAfter hv)
    refine ⟨m, ?_, hmb, hms, hfree⟩
    apply step_keeps h.mgr op hm hfree
    intro base hop hmap
    rw [hop] at hv
    exact liveAfter_free hv hmap hmb.symm
  recorded v hv := h.recorded v (mem_liveAfter hv)
  distinct := h.distinct.sublist (liveAfter_sublist op)

omit [LawfulPageEngine ε] in
theorem Reflects.memOp (hr : Reflects content s) (h : Placed outside s) (op : MemOp) :
    Reflects content (s.memOp env op) := by
  intro v hv r hlt
  have hv := mem_liveAfter hv
  rw [← hr v hv r hlt]
  exact if_neg fun hnew => hnew.2 (h.mapped_byte hv hlt)

omit [LawfulPageEngine ε] in
theorem Placed.createMapping (h : Placed outside s) (backedFile : Option (List UInt8)) (size prot : Nat) :
    Placed outside (s.createMapping backedFile size prot) where
  mgr := h.mgr
  mapped := h.mapped
  recorded v hv := by
    obtain ⟨view, hview, hrest⟩ := h.recorded v hv
    refine ⟨view, ?_, hrest⟩
    unfold viewsOf at hview ⊢
    cases hm : s.mappings[v.mapping]? with
    | none =>
      rw [hm] at hview
      cases hview
    | some fm =>
      rw [hm] at hview
      have happend : (s.createMapping backedFile size prot).mappings[v.mapping]? = some fm := by
        unfold ViewSession.createMapping
        rw [List.getElem?_append_left (List.getElem?_eq_some_iff.mp hm).1]
        exact hm
      rw [happend]
      exact hview
  distinct := h.distinct

/-- A write in a live view that reaches the other views of its mapping, each at the file offset. -/
structure WriteFits (s : ViewSession ε) (v : LiveView) (addr size : Nat) : Prop where
  inside : addr + size ≤ v.base + v.size
  targets : ∀ base ∈ (s.broadcastBases addr).1, ∃ w ∈ s.live, w.mapping = v.mapping ∧ w.base = base ∧
    w.offset = v.offset ∧ addr - v.base + size ≤ w.size
  reached : ∀ w ∈ s.live, w.mapping = v.mapping → w ≠ v →
    w.Meets (v.offset + (addr - v.base)) size → w.base ∈ (s.broadcastBases addr).1

/-- The contents of the mappings after a write at a file offset. -/
def writeContent (content : Nat → Nat → UInt8) (m offset : Nat) (data : List UInt8) :
    Nat → Nat → UInt8 := fun m' f =>
  if m' = m ∧ offset ≤ f ∧ f < offset + data.length then data.getD (f - offset) 0 else content m' f

omit [LawfulPageEngine ε] in
theorem WriteFits.write {v : LiveView} {addr : Nat} {data : List UInt8}
    (hw : WriteFits s v addr data.length) (h : Placed outside s) (hr : Reflects content s)
    (hv : v ∈ s.live) (hc : v.Contains addr) :
    ∃ bytes, s.memWrite addr data = (.ok (), { s with mem := ⟨s.mem.mgr, bytes⟩ }) ∧
      Reflects (writeContent content v.mapping (v.offset + (addr - v.base)) data)
        { s with mem := ⟨s.mem.mgr, bytes⟩ } ∧
      ∀ x, (∀ w ∈ s.live, w.mapping = v.mapping → ¬ w.Contains x) → bytes x = s.mem.bytes x := by
  obtain ⟨bytes, hwrite, hin, hout, hframe⟩ := h.memWrite hv hc hw.inside (by
    intro base hbase
    obtain ⟨w, hwl, -, hwb, -, hfits⟩ := hw.targets base hbase
    exact ⟨w, hwl, hwb, hfits⟩)
  have hreached : ∀ w ∈ s.live, Reached s v addr w → w.mapping = v.mapping ∧ w.offset = v.offset := by
    intro w hwl hwr
    rcases hwr with heq | hbase
    · rw [heq]
      exact ⟨rfl, rfl⟩
    · obtain ⟨u, hu, hmap, hub, hoff, -⟩ := hw.targets w.base hbase
      rw [h.eq_of_base hwl hu hub.symm]
      exact ⟨hmap, hoff⟩
  refine ⟨bytes, hwrite, ?_, ?_⟩
  · intro w hwl r hlt
    show bytes (w.base + r) = writeContent _ _ _ _ _ _
    unfold writeContent
    split
    next hrange =>
      have hwr : Reached s v addr w := by
        by_cases heq : w = v
        · exact Or.inl heq
        · right
          apply hw.reached w hwl hrange.1 heq
          rw [LiveView.meets_iff]
          exact ⟨w.offset + r, hrange.2, by omega, by omega⟩
      have hoff := (hreached w hwl hwr).2
      rw [hin w hwl r hlt hwr (by omega) (by omega)]
      congr 1
      omega
    next hrange =>
      rw [← hr w hwl r hlt]
      apply hout w hwl r hlt
      intro hwr
      obtain ⟨hmap, hoff⟩ := hreached w hwl hwr
      by_contra hnot
      exact hrange ⟨hmap, by omega, by omega⟩
  · intro x hx
    apply hframe
    intro w hwl hwr
    exact hx w hwl (hreached w hwl hwr).1

end ViewSession

theorem GuestMemory.remap_self {ε : Type} [PageEngine ε] (g : GuestMemory ε) : g.remap g.mgr = g := by
  have hbytes : ∀ a, (g.remap g.mgr).bytes a = g.bytes a := fun a => if_neg fun h => h.2 h.1
  unfold GuestMemory.remap at hbytes ⊢
  congr 1
  funext a
  exact hbytes a

namespace FileMap

variable {fm : FileMap} {view : MapView}

theorem lookup_isSome {base : Nat} :
    (fm.views.lookup base).isSome = true ↔ ∃ v ∈ fm.views, v.1 = base := by
  rw [List.lookup_isSome_iff]
  constructor
  · intro ⟨v, hv, heq⟩
    exact ⟨v, hv, (beq_iff_eq.mp heq).symm⟩
  · intro ⟨v, hv, heq⟩
    exact ⟨v, hv, beq_iff_eq.mpr heq.symm⟩

theorem mem_addView : (view.base, view) ∈ (fm.addView view).views := by
  unfold addView
  split
  next h =>
    obtain ⟨v, hv, hvb⟩ := lookup_isSome.mp h
    apply List.mem_map.mpr
    exact ⟨v, hv, if_pos hvb⟩
  next => exact List.mem_append_right _ List.mem_cons_self

theorem mem_addView_iff {v : Nat × MapView} (hne : v.1 ≠ view.base) :
    v ∈ (fm.addView view).views ↔ v ∈ fm.views := by
  unfold addView
  split
  next =>
    constructor
    · intro hv
      obtain ⟨u, hu, huv⟩ := List.mem_map.mp hv
      by_cases hub : u.1 = view.base
      · rw [if_pos hub] at huv
        rw [← huv] at hne
        exact absurd rfl hne
      · rw [if_neg hub] at huv
        exact huv ▸ hu
    · intro hv
      exact List.mem_map.mpr ⟨v, hv, if_neg hne⟩
  next =>
    constructor
    · intro hv
      rcases List.mem_append.mp hv with hv | hv
      · exact hv
      · rw [List.mem_singleton.mp hv] at hne
        exact absurd rfl hne
    · exact List.mem_append_left _

end FileMap

namespace ViewSession

variable {ε : Type} [PageEngine ε] {outside : Nat → Prop} {env : MemEnv} {s : ViewSession ε}
  {content : Nat → Nat → UInt8}

theorem copyViews_live (s : ViewSession ε) (live : List LiveView) (view : MapView)
    (views : List (Nat × MapView)) :
    copyViews { s with live := live } view views =
      ((copyViews s view views).1, { (copyViews s view views).2 with live := live }) := by
  induction views generalizing s with
  | nil => rfl
  | cons v views ih =>
    obtain ⟨base, v⟩ := v
    have hwrite : ∀ addr data, memWrite { s with live := live } addr data =
        ((s.memWrite addr data).1, { (s.memWrite addr data).2 with live := live }) := fun _ _ => rfl
    unfold copyViews
    split
    next =>
      cases hread : s.mem.memRead base view.size with
      | error e => rfl
      | ok data =>
        simp only [hwrite]
        rcases hs : s.memWrite view.base data with ⟨r, s'⟩
        cases r with
        | error e => rfl
        | ok r => exact ih s'
    next => exact ih s

theorem writeData_live (s : ViewSession ε) (live : List LiveView) (view : MapView)
    (data : Option (List UInt8)) :
    writeData { s with live := live } view data =
      ((writeData s view data).1, { (writeData s view data).2 with live := live }) := by
  cases data with
  | none => rfl
  | some d => rfl

omit [PageEngine ε] in
theorem viewsOf_addView_self {m : Nat} {fm : FileMap} (hm : s.mappings[m]? = some fm) (view : MapView) :
    (s.addView m view).viewsOf m = (fm.addView view).views := by
  show (((s.mappings.modify m _)[m]?).map FileMap.views).getD [] = _
  rw [List.getElem?_modify_eq, hm]
  rfl

omit [PageEngine ε] in
theorem viewsOf_addView_other {m m' : Nat} (hne : m ≠ m') (view : MapView) :
    (s.addView m view).viewsOf m' = s.viewsOf m' := by
  show (((s.mappings.modify m _)[m']?).map FileMap.views).getD [] = _
  rw [List.getElem?_modify_ne _ _ hne]
  rfl

omit [PageEngine ε] in
theorem viewsOf_eq {m : Nat} {fm : FileMap} (hm : s.mappings[m]? = some fm) : s.viewsOf m = fm.views := by
  unfold viewsOf
  rw [hm]
  rfl

/-- A new view that has the range of the other live views it meets, and whose data reaches them. -/
structure MapFits (s : ViewSession ε) (m : Nat) (shared backed : Bool) (base offset size : Nat) :
    Prop where
  unshadowed : shared = true → ∀ m' < m, ∀ v ∈ s.viewsOf m', v.1 ≠ base
  meeting : ∀ w ∈ s.live, w.mapping = m → w.Meets offset size → w.offset = offset ∧ w.size = size
  copied : ∀ v ∈ s.viewsOf m, v.1 ≠ base → v.2.size = size → v.2.offset = offset →
    ∃ w ∈ s.live, w.mapping = m ∧ w.base = v.1 ∧ w.offset = offset ∧ w.size = size
  targets : shared = true → (backed = true ∨
      ∃ v ∈ s.viewsOf m, v.1 ≠ base ∧ v.2.size = size ∧ v.2.offset = offset) →
    ∀ v ∈ s.viewsOf m, v.1 ≠ base →
      ∃ w ∈ s.live, w.mapping = m ∧ w.base = v.1 ∧ w.offset = offset ∧ w.size = size

/-- The state in which the new view is allocated, recorded and live, but has no data. -/
def allocated (s : ViewSession ε) (mgr : MemoryManager ε) (m : Nat) (view : MapView) : ViewSession ε :=
  { ({ s with mem := s.mem.remap mgr } : ViewSession ε).addView m view with
    live := s.live ++ [⟨m, view.base, view.offset, view.size⟩] }

section

variable {mgr : MemoryManager ε} {m : Nat} {fm : FileMap} {view : MapView} {mm : MemMap}
  (hm : s.mappings[m]? = some fm) (hmgr : mgr.Inv outside) (hmaps : mgr.maps = s.mem.mgr.maps ++ [mm])
  (hbase : mm.base = view.base) (hsize : mm.size = view.size) (hfree : mm.free = false)
include hm hmgr hmaps hbase

omit hm in
theorem Placed.base_ne (h : Placed outside s) {v : LiveView} (hv : v ∈ s.live) : v.base ≠ view.base := by
  obtain ⟨x, hx, hxb, -⟩ := h.mapped v hv
  have hdistinct := hmgr.bases_distinct
  rw [hmaps] at hdistinct
  have hne := (List.pairwise_append.mp hdistinct).2.2 x hx mm List.mem_cons_self
  rw [hxb, hbase] at hne
  exact hne

include hsize hfree in
theorem Placed.allocated (h : Placed outside s) : Placed outside (s.allocated mgr m view) where
  mgr := hmgr
  mapped v hv := by
    show ∃ x ∈ mgr.maps, _
    rw [hmaps]
    rcases List.mem_append.mp hv with hv | hv
    · obtain ⟨x, hx, hrest⟩ := h.mapped v hv
      exact ⟨x, List.mem_append_left _ hx, hrest⟩
    · rw [List.mem_singleton.mp hv]
      exact ⟨mm, List.mem_append_right _ List.mem_cons_self, hbase, hsize, hfree⟩
  recorded v hv := by
    show ∃ view', (v.base, view') ∈ (({ s with mem := s.mem.remap mgr } : ViewSession ε).addView m
      view).viewsOf v.mapping ∧ _
    have hself := viewsOf_addView_self (s := { s with mem := s.mem.remap mgr }) hm view
    rcases List.mem_append.mp hv with hv | hv
    · obtain ⟨view', hview, hrest⟩ := h.recorded v hv
      refine ⟨view', ?_, hrest⟩
      by_cases heq : m = v.mapping
      · rw [← heq] at hview ⊢
        rw [viewsOf_eq hm] at hview
        rw [hself]
        exact (FileMap.mem_addView_iff (h.base_ne hmgr hmaps hbase hv)).mpr hview
      · rw [viewsOf_addView_other heq]
        exact hview
    · rw [List.mem_singleton.mp hv]
      exact ⟨view, hself ▸ FileMap.mem_addView, rfl, rfl⟩
  distinct := by
    apply List.pairwise_append.mpr
    refine ⟨h.distinct, List.pairwise_singleton _ _, ?_⟩
    intro v hv w hw
    rw [List.mem_singleton.mp hw]
    exact h.base_ne hmgr hmaps hbase hv

/-- The bases to which a write at the new view is copied. -/
theorem mem_broadcastBases_allocated (hsize : mm.size = view.size) (hpos : 0 < view.size)
    (hfits : mm.shared = true → ∀ m' < m, ∀ v ∈ s.viewsOf m', v.1 ≠ view.base) {b : Nat} :
    b ∈ ((s.allocated mgr m view).broadcastBases view.base).1 ↔
      mm.shared = true ∧ b ≠ view.base ∧ ∃ v ∈ s.viewsOf m, v.1 = b := by
  have hmem : mm ∈ mgr.maps := by
    rw [hmaps]
    exact List.mem_append_right _ List.mem_cons_self
  have hmap : (s.allocated mgr m view).mem.mgr.getAddressMap view.base = some mm := by
    apply hmgr.getAddressMap_eq hmem
    constructor
    · omega
    · omega
  unfold broadcastBases
  rw [hmap]
  by_cases hshared : mm.shared = true
  · have hfind : getMappingFromAddr (s.allocated mgr m view).mappings mm.base = some (fm.addView view) := by
      unfold getMappingFromAddr
      rw [List.find?_eq_some_iff_getElem]
      have hlt := (List.getElem?_eq_some_iff.mp hm).1
      have hget : (s.allocated mgr m view).mappings[m]? = some (fm.addView view) := by
        show (s.mappings.modify m _)[m]? = _
        rw [List.getElem?_modify_eq, hm]
        rfl
      obtain ⟨hlt', hget'⟩ := List.getElem?_eq_some_iff.mp hget
      refine ⟨?_, m, hlt', hget', ?_⟩
      · rw [hbase]
        exact FileMap.lookup_isSome.mpr ⟨_, FileMap.mem_addView, rfl⟩
      · intro j hj
        have hjget : (s.allocated mgr m view).mappings[j]? = s.mappings[j]? := by
          show (s.mappings.modify m _)[j]? = _
          exact List.getElem?_modify_ne _ _ (by omega)
        have hjlt : j < s.mappings.length := by omega
        have hjelem : (s.allocated mgr m view).mappings[j] = s.mappings[j] := by
          apply Option.some.inj
          rw [← List.getElem?_eq_getElem, ← List.getElem?_eq_getElem]
          exact hjget
        rw [hjelem, Bool.not_eq_true', Bool.eq_false_iff]
        intro hsome
        obtain ⟨v, hv, hvb⟩ := FileMap.lookup_isSome.mp hsome
        rw [hbase] at hvb
        refine hfits hshared j hj v ?_ hvb
        rw [viewsOf_eq (List.getElem?_eq_getElem hjlt)]
        exact hv
    simp only [hshared, hfind]
    rw [viewsOf_eq hm, hbase]
    simp only [if_true, List.mem_filter, List.mem_map, decide_eq_true_eq, true_and]
    constructor
    · intro ⟨⟨v, hv, hvb⟩, hne⟩
      refine ⟨hne, v, ?_, hvb⟩
      exact (FileMap.mem_addView_iff (hvb ▸ hne)).mp hv
    · intro ⟨hne, v, hv, hvb⟩
      exact ⟨⟨v, (FileMap.mem_addView_iff (hvb ▸ hne)).mpr hv, hvb⟩, hne⟩
  · simp [hshared]

end

end ViewSession

end Speakeasy
