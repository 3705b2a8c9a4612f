import Speakeasy.MemorySteps

namespace Speakeasy

section

open PageEngine

/-- The address limit, and the reserved range of the emulator above it or inside. -/
structure MemEnv.Limited (env : MemEnv) (limit : Nat) : Prop where
  addressLimit : env.addressLimit = some limit
  reserved : ∀ r ∈ env.emuReserved, limit ≤ r.1 ∨ (pageSize ≤ r.2 ∧ r.2 < limit)

namespace MemoryManager

variable {ε : Type} [PageEngine ε] {env : MemEnv} {limit : Nat} {s : MemoryManager ε}

/-- Searches without an address begin after the first page, and below the limit. -/
structure Below (limit : Nat) (s : MemoryManager ε) : Prop where
  allocBase : pageSize ≤ s.allocBase ∧ s.allocBase < limit
  block : s.blockBase ≠ 0 → s.blockBase + pageSize ≤ limit

theorem firstValidRange_bounds (hl : env.addressLimit = some limit) {size addr base total : Nat}
    (ha : pageSize ≤ addr) (hlt : addr < limit)
    (h : firstValidRange env s size (some addr) = .ok (base, total)) :
    pageSize ≤ base ∧ base + total ≤ limit := by
  obtain ⟨ht, hb⟩ := firstValidRange_cases h
  have hle := le_skipPages total s.usedPages (pageOf addr)
  have hpage : pageSize ≤ pageOf addr := pageAligned_pageSize.le_pageOf.mpr ha
  simp only [firstValidRange, hl, Option.getD_some] at h
  split at h
  next => cases h
  next hn =>
    cases h
    simp only [Option.getD_some] at hb
    refine ⟨by omega, ?_⟩
    by_contra hc
    exact hn ⟨hlt, by omega⟩

theorem firstValidRange_none (size : Nat) :
    firstValidRange env s size none = firstValidRange env s size (some s.allocBase) := by
  simp [firstValidRange]

theorem getValidRanges_bounds (he : env.Limited limit) (hb : s.Below limit) {size base total : Nat}
    (h : getValidRanges env s size none = .ok (base, total)) :
    pageSize ≤ base ∧ base + total ≤ limit := by
  unfold getValidRanges at h
  rw [firstValidRange_none] at h
  split at h
  next b t r re hf hres =>
    obtain ⟨h1, h2⟩ := firstValidRange_bounds he.addressLimit hb.allocBase.1 hb.allocBase.2 hf
    split at h
    next hin =>
      rcases he.reserved (r, re) hres with hr | ⟨hr1, hr2⟩
      · -- The search ended below the limit, so it cannot have met a range above it.
        dsimp only at hr
        omega
      · exact firstValidRange_bounds he.addressLimit hr1 hr2 h
    next =>
      cases h
      exact ⟨h1, h2⟩
  next =>
    exact firstValidRange_bounds he.addressLimit hb.allocBase.1 hb.allocBase.2 h

variable [LawfulPageEngine ε] {outside : Nat → Prop}

/-- A new allocation without a base: it is the last one, it is large enough, and its addresses are
positive and below the limit. -/
theorem memMap_ok (hi : s.Inv outside) (he : env.Limited limit) (hb : s.Below limit) {a : MapArgs}
    (ha : a.base = none) {base : Nat} {s' : MemoryManager ε}
    (h : MemoryManager.memMap env s a = (.ok base, s')) :
    (∃ mm, s'.maps = s.maps ++ [mm] ∧ mm.base = base ∧ a.size ≤ mm.size) ∧
      0 < base ∧ base + a.size ≤ limit := by
  unfold memMap at h
  split at h
  next hsmall =>
    obtain ⟨hpos, hfit⟩ := small_size_le hsmall.2.1
    unfold memMapSmall at h
    by_cases hn : s.blockBase = 0 ∨
        s.blockBase + pageSize < s.blockBase + s.blockOffset + (a.size + (0x10 - a.size % 0x10))
    · simp only [if_pos hn] at h
      cases hv : getValidRanges env s pageSize none with
      | error e => simp [hv] at h
      | ok r =>
        obtain ⟨b, total⟩ := r
        obtain ⟨eng, hm, _⟩ := getValidRanges_map hi.reserves hv permMemRwx
        obtain ⟨h1, h2⟩ := getValidRanges_bounds he hb hv
        have ht : total = pageSize := (getValidRanges_total hv).trans pageTotal_pageSize
        simp only [hv, hm, takeFromBlock] at h
        obtain ⟨hb, rfl⟩ := Prod.mk.inj h
        cases hb
        exact ⟨⟨_, rfl, rfl, Nat.le_add_right ..⟩, by simp only [pageSize] at *; omega, by omega⟩
    · simp only [if_neg hn, takeFromBlock] at h
      simp only [not_or, not_lt] at hn
      have := hb.block hn.1
      obtain ⟨hb, rfl⟩ := Prod.mk.inj h
      cases hb
      exact ⟨⟨_, rfl, rfl, Nat.le_add_right ..⟩, by omega, by omega⟩
  next =>
    unfold memMapLarge at h
    rw [ha] at h
    cases hv : getValidRanges env s a.size none with
    | error e => simp [hv] at h
    | ok r =>
      obtain ⟨b, total⟩ := r
      obtain ⟨eng, hm, _⟩ := getValidRanges_map hi.reserves hv a.perms
      obtain ⟨h1, h2⟩ := getValidRanges_bounds he hb hv
      have hle : a.size ≤ total := (getValidRanges_spec hi.reserves hv).2.1
      simp only [hv, hm] at h
      obtain ⟨hb, rfl⟩ := Prod.mk.inj h
      cases hb
      exact ⟨⟨_, rfl, rfl, hle⟩, by simp only [pageSize] at *; omega, by omega⟩

/-- A failed allocation has no effect. -/
theorem memMap_error (hi : s.Inv outside) {a : MapArgs} {e : MemError} {s' : MemoryManager ε}
    (h : MemoryManager.memMap env s a = (.error e, s')) : s' = s := by
  unfold memMap at h
  split at h
  next =>
    unfold memMapSmall at h
    by_cases hn : s.blockBase = 0 ∨
        s.blockBase + pageSize < s.blockBase + s.blockOffset + (a.size + (0x10 - a.size % 0x10))
    · simp only [if_pos hn] at h
      cases hv : getValidRanges env s pageSize none with
      | error e =>
        simp only [hv] at h
        exact (Prod.mk.inj h).2.symm
      | ok r =>
        obtain ⟨eng, hm, _⟩ := getValidRanges_map hi.reserves hv permMemRwx
        simp [hv, hm, takeFromBlock] at h
    · simp [if_neg hn, takeFromBlock] at h
  next =>
    unfold memMapLarge at h
    cases hv : getValidRanges env s a.size a.base with
    | error e =>
      simp only [hv] at h
      exact (Prod.mk.inj h).2.symm
    | ok r =>
      obtain ⟨eng, hm, _⟩ := getValidRanges_map hi.reserves hv a.perms
      simp [hv, hm] at h

omit [LawfulPageEngine ε] in
theorem memMap_below (he : env.Limited limit) (hb : s.Below limit) (a : MapArgs) :
    (MemoryManager.memMap env s a).2.Below limit := by
  unfold memMap
  split
  next =>
    unfold memMapSmall
    by_cases hn : s.blockBase = 0 ∨
        s.blockBase + pageSize < s.blockBase + s.blockOffset + (a.size + (0x10 - a.size % 0x10))
    · simp only [if_pos hn]
      cases hv : getValidRanges env s pageSize none with
      | error e => exact hb
      | ok r =>
        obtain ⟨b, total⟩ := r
        have ht : total = pageSize := (getValidRanges_total hv).trans pageTotal_pageSize
        have hblock : b + pageSize ≤ limit := ht ▸ (getValidRanges_bounds he hb hv).2
        dsimp only
        split
        · exact ⟨hb.allocBase, fun _ => hblock⟩
        · exact ⟨hb.allocBase, fun _ => hblock⟩
    · simp only [if_neg hn]
      exact ⟨hb.allocBase, hb.block⟩
  next =>
    unfold memMapLarge
    split
    · exact hb
    · dsimp only
      split
      · exact hb
      · exact ⟨hb.allocBase, hb.block⟩

end MemoryManager

end

section

open PageEngine MemoryManager

inductive MemOp
  | memMap (a : MapArgs)
  | memFree (base : Nat)
  | memReserve (a : ReserveArgs)
  | memUnreserve (base : Nat)
  | memMapReserve (mappedBase : Nat)
  | enterAllocationsFrom (base : Nat)
  | leaveAllocationsFrom

/-- A memory manager, and the search bases that the open `allocations_from` blocks restore. -/
structure MemSession (ε : Type) where
  mgr : MemoryManager ε
  bases : List Nat

namespace MemSession

variable {ε : Type} [PageEngine ε]

def init (e : ε) : MemSession ε := ⟨MemoryManager.init e, []⟩

/-- One call. A call that raises keeps what it changed before it raised. -/
def step (env : MemEnv) (t : MemSession ε) : MemOp → MemSession ε
  | .memMap a => { t with mgr := (memMap env t.mgr a).2 }
  | .memFree base => { t with mgr := (memFree env t.mgr base).2 }
  | .memReserve a => { t with mgr := (memReserve env t.mgr a).2 }
  | .memUnreserve base => { t with mgr := memUnreserve t.mgr base }
  | .memMapReserve base => { t with mgr := (memMapReserve env t.mgr base).2 }
  | .enterAllocationsFrom base => ⟨enterAllocationsFrom t.mgr base, t.mgr.allocBase :: t.bases⟩
  | .leaveAllocationsFrom =>
    match t.bases with
    | [] => t
    | previous :: bases => ⟨leaveAllocationsFrom t.mgr previous, bases⟩

def run (env : MemEnv) (t : MemSession ε) (ops : List MemOp) : MemSession ε :=
  ops.foldl (step env) t

end MemSession

/-- A call that gives `mem_reserve` a base gives a page-aligned one. -/
def MemOp.ReserveAligned : MemOp → Prop
  | .memReserve a => ∀ base ∈ a.base, PageAligned base
  | _ => True

section Runs

variable {ε : Type} [PageEngine ε]

def MapsDisjoint (s : MemoryManager ε) : Prop :=
  s.maps.Pairwise (fun m n => ∀ a, ¬(m.Covers a ∧ n.Covers a))

def MapsMapped (s : MemoryManager ε) : Prop :=
  ∀ m ∈ s.maps, ∀ a, m.Covers a → Mapped s.emuEng a

/-- A free leaves every allocation that is not free, and is not the one it frees, mapped. -/
def FreeKeepsOthers (env : MemEnv) (s : MemoryManager ε) (base : Nat) : Prop :=
  ∀ m ∈ s.maps, m.free = false → s.getAddressMap base ≠ some m →
    m ∈ (memFree env s base).2.maps ∧ ∀ a, m.Covers a → Mapped (memFree env s base).2.emuEng a

/-- The free of the last allocation of a block that is not free unmaps the block. -/
def FreeUnmapsLast (env : MemEnv) (s : MemoryManager ε) (base : Nat) : Prop :=
  ∀ mm, s.getAddressMap base = some mm →
    (∀ m ∈ s.maps, m.blockBase = mm.blockBase → m = mm ∨ m.free = true) →
    (∀ a, mm.blockBase ≤ a → a < mm.blockBase + mm.blockSize →
      ¬Mapped (memFree env s base).2.emuEng a) ∧
    ∀ m ∈ (memFree env s base).2.maps, m.blockBase ≠ mm.blockBase

/-- The guarantees of the memory manager in one state. -/
structure AllocationsSound (env : MemEnv) (s : MemoryManager ε) : Prop where
  disjoint : MapsDisjoint s
  mapped : MapsMapped s
  free_keeps : ∀ base, FreeKeepsOthers env s base
  free_unmaps : ∀ base, FreeUnmapsLast env s base

variable [LawfulPageEngine ε] {outside : Nat → Prop}

theorem freeKeepsOthers_of_inv {env : MemEnv} {s : MemoryManager ε} (h : s.Inv outside) (base : Nat) :
    FreeKeepsOthers env s base := by
  intro m hm hf hne
  have hmem : m ∈ (memFree env s base).2.maps := by
    rcases memFree_cases env h base with ⟨_, hs⟩ | ⟨mm, hg, hcase⟩
    · rw [hs]
      exact hm
    · have hset := mem_setFree_of_find_ne hm hne
      rcases hcase with ⟨_, hs⟩ | ⟨_, hall, eng, _, hs⟩
      · rw [hs]
        exact hset
      · rw [hs]
        refine List.mem_filter.mpr ⟨hset, bne_iff_ne.mpr fun hb => ?_⟩
        simp [hall m hset hb] at hf
  exact ⟨hmem, fun a ha => (memFree_inv h base).covers_mapped hmem ha⟩

theorem freeUnmapsLast_of_inv {env : MemEnv} (hk : env.keepMemoryOnFree = false)
    {s : MemoryManager ε} (h : s.Inv outside) (base : Nat) : FreeUnmapsLast env s base := by
  intro mm hg hlast
  have hfree : ∀ m ∈ setFree base s.maps, m.blockBase = mm.blockBase → m.free = true := by
    intro m hm hb
    rcases of_mem_setFree h.maps_apart hm with ⟨x, _, rfl⟩ | ⟨hm, hc⟩
    · rfl
    · refine (hlast m hm hb).resolve_left fun heq => hc ?_
      rw [heq]
      exact (mem_of_getAddressMap hg).2
  rcases memFree_cases env h base with ⟨hn, _⟩ | ⟨mm', hg', hcase⟩
  · simp [hn] at hg
  · have heq : mm = mm' := Option.some.inj (hg.symm.trans hg')
    subst heq
    rcases hcase with ⟨hno, _⟩ | ⟨_, _, eng, hm, hs⟩
    · rcases hno with hkeep | ⟨m, hm, hb, hnf⟩
      · simp [hk] at hkeep
      · simp [hfree m hm hb] at hnf
    · rw [hs]
      exact ⟨fun a hl hu hma => ((hm a).mp hma).1 ⟨hl, hu⟩,
        fun m hm => bne_iff_ne.mp (List.mem_filter.mp hm).2⟩

theorem allocationsSound_of_inv {env : MemEnv} (hk : env.keepMemoryOnFree = false)
    {s : MemoryManager ε} (h : s.Inv outside) : AllocationsSound env s where
  disjoint := h.maps_apart
  mapped _ hm _ ha := h.covers_mapped hm ha
  free_keeps := freeKeepsOthers_of_inv h
  free_unmaps := freeUnmapsLast_of_inv hk h

theorem MemSession.step_inv {env : MemEnv} {t : MemSession ε} (h : t.mgr.Inv outside) {op : MemOp}
    (ha : op.ReserveAligned) : (t.step env op).mgr.Inv outside := by
  cases op with
  | memMap a => exact memMap_inv h a
  | memFree base => exact memFree_inv h base
  | memReserve a => exact memReserve_inv h ha
  | memUnreserve base => exact memUnreserve_inv h base
  | memMapReserve base => exact memMapReserve_inv h base
  | enterAllocationsFrom base => exact h.closeCursor base 0
  | leaveAllocationsFrom =>
    cases hb : t.bases with
    | nil => simpa only [step, hb] using h
    | cons previous bases =>
      simp only [step, hb]
      exact h.closeCursor previous 0

theorem MemSession.run_inv {env : MemEnv} {t : MemSession ε} (h : t.mgr.Inv outside) {ops : List MemOp}
    (ha : ∀ op ∈ ops, op.ReserveAligned) : (t.run env ops).mgr.Inv outside := by
  induction ops generalizing t with
  | nil => exact h
  | cons op ops ih =>
    exact ih (step_inv h (ha op (by simp))) (fun o ho => ha o (by simp [ho]))

/-- Every run that reserves only page-aligned bases keeps the allocations disjoint and mapped. -/
theorem memory_run_sound {env : MemEnv} (hk : env.keepMemoryOnFree = false) (e : ε)
    {ops : List MemOp} (ha : ∀ op ∈ ops, op.ReserveAligned) :
    AllocationsSound env ((MemSession.init e).run env ops).mgr :=
  allocationsSound_of_inv hk (MemSession.run_inv (inv_init e) ha)

end Runs

def plainEnv : MemEnv := ⟨none, none, false, none⟩

def reserveThenFree : List MemOp :=
  [.memReserve { size := 0x20, base := some 0x10000 }, .memMap { size := 0x10 }, .memFree 0x11000]

theorem memory_run_sound_reserveThenFree :
    AllocationsSound plainEnv ((MemSession.init emptyEngine).run plainEnv reserveThenFree).mgr :=
  memory_run_sound rfl emptyEngine
    (by simp [reserveThenFree, MemOp.ReserveAligned, PageAligned, pageSize])

def unalignedReserve : List MemOp :=
  [.memReserve { size := 0x1000, base := some 0x10800 }, .memMap { size := 0x10 },
    .memMap { size := 0x10 }]

/-- After a reservation at an unaligned base, the shared page block gets an unaligned base that the
engine refuses, and the next small allocation lies in a block that nothing maps. -/
theorem memory_run_unaligned_reserve :
    ¬∀ ops : List MemOp,
      AllocationsSound plainEnv ((MemSession.init emptyEngine).run plainEnv ops).mgr := by
  intro h
  obtain ⟨m, hm, hc, hn⟩ : ∃ m ∈ ((MemSession.init emptyEngine).run plainEnv unalignedReserve).mgr.maps,
      m.Covers 0x11800 ∧
        ¬Mapped ((MemSession.init emptyEngine).run plainEnv unalignedReserve).mgr.emuEng 0x11800 := by
    decide
  exact hn ((h unalignedReserve).mapped m hm _ hc)

end

end Speakeasy
