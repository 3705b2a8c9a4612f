import Speakeasy.PageProtection

namespace Speakeasy

section

open PageEngine MemoryManager

namespace WinMemory

variable {ε : Type} [PageEngine ε] [LawfulPageEngine ε]

/-- The engine accepts a protection of mapped pages, also of none. -/
theorem memProtect_spec (w : WinMemory ε) {base size : Nat} (perms : Nat) (hb : PageAligned base)
    (hs : PageAligned size)
    (hm : ∀ a, base ≤ a → a < base + size → Mapped w.mgr.emuEng a) :
    ∃ eng, w.memProtect base size perms = .ok { w with mgr := { w.mgr with emuEng := eng } } ∧
      ∀ a, permsAt eng a = if base ≤ a ∧ a < base + size then some (ucPerms perms)
        else permsAt w.mgr.emuEng a := by
  by_cases hz : size = 0
  · subst hz
    refine ⟨w.mgr.emuEng, ?_, fun a => ?_⟩
    · simp [memProtect, EmuEngine.memProtect, LawfulPageEngine.memProtect_empty, Except.map]
    · rw [if_neg (by omega)]
  · obtain ⟨eng, he, hp⟩ := LawfulPageEngine.memProtect_exact w.mgr.emuEng (ucPerms perms)
      ⟨hb, hs, Nat.pos_of_ne_zero hz⟩ hm
    refine ⟨eng, ?_, hp⟩
    simp [memProtect, EmuEngine.memProtect, he, Except.map]

omit [LawfulPageEngine ε] in
theorem mapped_of_permsAt {e e' : ε} {base size perms : Nat}
    (hp : ∀ a, permsAt e' a = if base ≤ a ∧ a < base + size then some perms else permsAt e a)
    (hm : ∀ a, base ≤ a → a < base + size → Mapped e a) (a : Nat) : Mapped e' a ↔ Mapped e a := by
  simp only [Mapped, hp a]
  split
  next h => exact iff_of_true (by simp) (hm a h.1 h.2)
  next => rfl

/-- Guarding whole mapped pages takes all access away and remembers the permissions. -/
theorem setGuardPages_spec (w : WinMemory ε) {base size : Nat} (perms : Nat) (hb : PageAligned base)
    (hs : PageAligned size)
    (hm : ∀ a, base ≤ a → a < base + size → Mapped w.mgr.emuEng a) :
    ∃ eng, w.setGuardPages base size perms = (.ok (), {
        mgr := { w.mgr with emuEng := eng }
        guardPages := fun p => if p ∈ pageSteps base (base + size) then some perms
          else w.guardPages p }) ∧
      ∀ a, permsAt eng a = if base ≤ a ∧ a < base + size then some (ucPerms permMemNone)
        else permsAt w.mgr.emuEng a := by
  have hsize : base + size - base = size := by omega
  let guardPages := fun p => if p ∈ pageSteps base (base + size) then some perms else w.guardPages p
  obtain ⟨eng, he, hp⟩ := memProtect_spec { w with guardPages := guardPages } permMemNone hb hs hm
  refine ⟨eng, ?_, hp⟩
  dsimp only [guardPages] at he
  simp only [setGuardPages, hb.pageOf_eq, (hb.add hs).pageUp_eq, hsize, he]

end WinMemory

theorem setProt_extents (a new : Nat) (ms : List MemMap) :
    (setProt a new ms).map MemMap.extent = ms.map MemMap.extent := by
  induction ms with
  | nil => rfl
  | cons m ms ih =>
    rw [setProt]
    split
    · rfl
    · simp [ih]

variable {ε : Type} [PageEngine ε] [LawfulPageEngine ε] {outside : Nat → Prop}

/-- The permissions of a page after a protection by `VirtualProtect` or a commit. -/
def appliedPerms (protect : Nat) : Nat :=
  if hasFlag protect pageGuard then permMemNone else winPermsToEmuPerms protect

/-- The guard page entry of a page after a protection. -/
def appliedGuard (protect : Nat) : Option Nat :=
  if hasFlag protect pageGuard then some (winPermsToEmuPerms protect) else none

/-- What `VirtualProtect` can do before its store: fail without an effect, or protect the whole range. -/
theorem protectPages_cases {w : WinMemory ε} (h : w.mgr.Inv outside)
    (lpAddress dwSize flNewProtect lpflOldProtect : Nat) :
    (∃ err, (w.mgr.getAddressMap lpAddress = none ∨ lpflOldProtect = 0 ∨
        ¬∀ a, pageOf lpAddress ≤ a → a < pageOf lpAddress + pageUp dwSize → Mapped w.mgr.emuEng a) ∧
      protectPages w lpAddress dwSize flNewProtect lpflOldProtect = (.ok (⟨0, err⟩, none), w)) ∨
    ∃ mm eng, w.mgr.getAddressMap lpAddress = some mm ∧ lpflOldProtect ≠ 0 ∧
      (∀ a, pageOf lpAddress ≤ a → a < pageOf lpAddress + pageUp dwSize → Mapped w.mgr.emuEng a) ∧
      (∀ a, permsAt eng a = if pageOf lpAddress ≤ a ∧ a < pageOf lpAddress + pageUp dwSize
        then some (ucPerms (appliedPerms flNewProtect)) else permsAt w.mgr.emuEng a) ∧
      protectPages w lpAddress dwSize flNewProtect lpflOldProtect =
        (.ok (⟨1, none⟩, some (withoutGuard (savedProtection mm) |||
            (if (w.guardPages (pageOf lpAddress)).isSome then pageGuard else 0))),
          { mgr := { w.mgr with
              emuEng := eng
              maps := setProt lpAddress (winPermsToEmuPerms flNewProtect) w.mgr.maps }
            guardPages := fun p =>
              if p ∈ pageSteps (pageOf lpAddress) (pageOf lpAddress + pageUp dwSize)
              then appliedGuard flNewProtect else w.guardPages p }) := by
  unfold protectPages
  cases hg : w.mgr.getAddressMap lpAddress with
  | none => exact Or.inl ⟨none, Or.inl rfl, rfl⟩
  | some mm =>
    dsimp only
    split
    next hold => exact Or.inl ⟨none, Or.inr (Or.inl hold), rfl⟩
    next hold =>
      have hfirst : Mapped w.mgr.emuEng (pageOf lpAddress) :=
        mapped_pageOf.mpr (h.covers_mapped (mem_of_getAddressMap hg).1 (mem_of_getAddressMap hg).2)
      split
      next hall =>
        exact Or.inl ⟨_, Or.inr (Or.inr fun hm => hall ((getFirstUnmapped_eq_iff hfirst).mpr hm)), rfl⟩
      next hall =>
        have hm := (getFirstUnmapped_eq_iff hfirst).mp (not_not.mp hall)
        have hb := pageOf_aligned lpAddress
        have hs := pageUp_aligned dwSize
        have hclear : ∀ p, p ∈ pageSteps (pageOf (pageOf lpAddress))
            (pageOf lpAddress + pageUp dwSize) ↔
              p ∈ pageSteps (pageOf lpAddress) (pageOf lpAddress + pageUp dwSize) := by
          intro p
          rw [hb.pageOf_eq]
        obtain ⟨eng, he, hp⟩ := w.memProtect_spec (winPermsToEmuPerms flNewProtect) hb hs hm
        refine Or.inr ⟨mm, ?_⟩
        simp only [he]
        by_cases hgd : hasFlag flNewProtect pageGuard
        · have hm' := fun a hl hu => (WinMemory.mapped_of_permsAt hp hm a).mpr (hm a hl hu)
          obtain ⟨eng', he', hp'⟩ := WinMemory.setGuardPages_spec
            (WinMemory.clearGuardPages { w with mgr := { w.mgr with emuEng := eng } }
              (pageOf lpAddress) (pageUp dwSize)) (winPermsToEmuPerms flNewProtect) hb hs hm'
          refine ⟨eng', trivial, hold, hm, fun a => ?_, ?_⟩
          · have ha := hp' a
            simp only [WinMemory.clearGuardPages, hp a] at ha
            rw [ha, appliedPerms, if_pos hgd]
            split <;> rfl
          · have hset : ∀ p, (if p ∈ pageSteps (pageOf lpAddress) (pageOf lpAddress + pageUp dwSize)
                then some (winPermsToEmuPerms flNewProtect)
                else if p ∈ pageSteps (pageOf lpAddress) (pageOf lpAddress + pageUp dwSize) then none
                else w.guardPages p) =
                if p ∈ pageSteps (pageOf lpAddress) (pageOf lpAddress + pageUp dwSize)
                then some (winPermsToEmuPerms flNewProtect) else w.guardPages p := by
              intro p
              split <;> rfl
            rw [if_pos hgd, he', appliedGuard, if_pos hgd]
            simp only [WinMemory.clearGuardPages, hclear, hset]
        · refine ⟨eng, trivial, hold, hm, fun a => ?_, ?_⟩
          · rw [hp a]
            simp only [appliedPerms, hgd, Bool.false_eq_true, if_false]
          · simp only [hgd, Bool.false_eq_true, if_false, appliedGuard, WinMemory.clearGuardPages,
              hclear]

omit [LawfulPageEngine ε] in
/-- The store changes no page. -/
theorem virtualProtect_pages (w : WinMemory ε) (lpAddress dwSize flNewProtect lpflOldProtect : Nat) :
    (virtualProtect w lpAddress dwSize flNewProtect lpflOldProtect).2 =
      (protectPages w lpAddress dwSize flNewProtect lpflOldProtect).2 := by
  unfold virtualProtect
  split
  next hres =>
    rw [hres]
    split
    · rfl
    · rfl
  next hres => rw [hres]

theorem virtualProtect_inv {w : WinMemory ε} (h : w.mgr.Inv outside)
    (lpAddress dwSize flNewProtect lpflOldProtect : Nat) :
    (virtualProtect w lpAddress dwSize flNewProtect lpflOldProtect).2.mgr.Inv outside := by
  rw [virtualProtect_pages]
  rcases protectPages_cases h lpAddress dwSize flNewProtect lpflOldProtect with
    ⟨_, _, hs⟩ | ⟨mm, eng, _, _, hm, hp, hs⟩
  · rw [hs]
    exact h
  · rw [hs]
    exact h.congr (setProt_extents _ _ _) (WinMemory.mapped_of_permsAt hp hm) rfl rfl rfl rfl

end

section

open PageEngine MemoryManager

inductive QueryOp
  | mem (op : MemOp)
  | virtualProtect (lpAddress dwSize flNewProtect lpflOldProtect : Nat)

structure WinSession (ε : Type) where
  win : WinMemory ε
  bases : List Nat

section

variable {ε : Type} [PageEngine ε]

def WinSession.init (e : ε) : WinSession ε := ⟨⟨MemoryManager.init e, fun _ => none⟩, []⟩

def WinSession.step (env : WinEnv) (t : WinSession ε) : QueryOp → WinSession ε
  | .mem op =>
    let m := MemSession.step env.mem ⟨t.win.mgr, t.bases⟩ op
    ⟨{ t.win with mgr := m.mgr }, m.bases⟩
  | .virtualProtect lpAddress dwSize flNewProtect lpflOldProtect =>
    ⟨(virtualProtect t.win lpAddress dwSize flNewProtect lpflOldProtect).2, t.bases⟩

/-- A call that gives `mem_reserve` a base gives a page range that is not in use. -/
def QueryOp.ReserveFresh (t : WinSession ε) : QueryOp → Prop
  | .mem (.memReserve a) => ∀ base ∈ a.base, PageRange base a.size ∧ t.win.mgr.Unused base a.size
  | _ => True

/-- The reservations are page ranges, apart from each other and from mapped memory. -/
structure ReservesFresh (s : MemoryManager ε) : Prop where
  range : ∀ r ∈ s.memReserves, PageRange r.base r.size
  unmapped : ∀ r ∈ s.memReserves, ∀ a, r.Covers a → ¬Mapped s.emuEng a
  apart : s.memReserves.Pairwise (fun r q => ∀ a, ¬(r.Covers a ∧ q.Covers a))

theorem ReservesFresh.sublist {s : MemoryManager ε} (h : ReservesFresh s) {s' : MemoryManager ε}
    (hs : s'.memReserves.Sublist s.memReserves)
    (hm : ∀ r ∈ s.memReserves, ∀ a, r.Covers a → Mapped s'.emuEng a → Mapped s.emuEng a) :
    ReservesFresh s' where
  range r hr := h.range r (hs.subset hr)
  unmapped r hr a ha hma := h.unmapped r (hs.subset hr) a ha (hm r (hs.subset hr) a ha hma)
  apart := h.apart.sublist hs

variable [LawfulPageEngine ε] {outside : Nat → Prop} {s : MemoryManager ε}

/-- `mem_map` keeps the reservations, and maps no byte of them. -/
theorem memMap_reserves (env : MemEnv) (h : s.ReservesAligned) (a : MapArgs) :
    (MemoryManager.memMap env s a).2.memReserves = s.memReserves ∧
      ∀ r ∈ s.memReserves, ∀ x, r.Covers x → Mapped (MemoryManager.memMap env s a).2.emuEng x →
        Mapped s.emuEng x := by
  have hnew : ∀ {size addr base total}, getValidRanges env s size addr = .ok (base, total) →
      ∀ perms, ∃ eng, EmuEngine.memMap s.emuEng base total perms = .ok eng ∧
        ∀ r ∈ s.memReserves, ∀ x, r.Covers x → Mapped eng x → Mapped s.emuEng x := by
    intro size addr base total hv perms
    obtain ⟨eng, he, hm⟩ := getValidRanges_map h hv perms
    refine ⟨eng, he, fun r hr x hx hmx => ((hm x).mp hmx).resolve_left fun hin => ?_⟩
    exact ((getValidRanges_spec h hv).2.2 x hin.1 hin.2).2 r hr hx
  have hsame : ∀ r ∈ s.memReserves, ∀ x, r.Covers x → Mapped s.emuEng x → Mapped s.emuEng x :=
    fun _ _ _ _ hm => hm
  unfold MemoryManager.memMap
  split
  next =>
    unfold memMapSmall
    by_cases hn : s.blockBase = 0 ∨
        s.blockBase + pageSize < s.blockBase + s.blockOffset + (a.size + (0x10 - a.size % 0x10))
    · simp only [if_pos hn]
      cases hv : getValidRanges env s pageSize none with
      | error e => exact ⟨rfl, hsame⟩
      | ok r =>
        obtain ⟨eng, he, hm⟩ := hnew hv permMemRwx
        dsimp only
        rw [he]
        exact ⟨rfl, hm⟩
    · simp only [if_neg hn]
      exact ⟨rfl, hsame⟩
  next =>
    unfold memMapLarge
    cases hv : getValidRanges env s a.size a.base with
    | error e => exact ⟨rfl, hsame⟩
    | ok r =>
      obtain ⟨eng, he, hm⟩ := hnew hv a.perms
      dsimp only
      rw [he]
      exact ⟨rfl, hm⟩

theorem memFree_reserves (env : MemEnv) (h : s.Inv outside) (base : Nat) :
    (memFree env s base).2.memReserves = s.memReserves ∧
      ∀ x, Mapped (memFree env s base).2.emuEng x → Mapped s.emuEng x := by
  rcases memFree_cases env h base with ⟨_, hs⟩ | ⟨mm, _, hcase⟩
  · rw [hs]
    exact ⟨rfl, fun _ hm => hm⟩
  · rcases hcase with ⟨_, hs⟩ | ⟨_, _, eng, hm, hs⟩ <;> rw [hs]
    · exact ⟨rfl, fun _ hm => hm⟩
    · exact ⟨rfl, fun x hx => ((hm x).mp hx).2⟩

theorem memReserve_fresh {env : MemEnv} (hr : s.ReservesAligned) (hf : ReservesFresh s)
    {a : ReserveArgs} (ha : ∀ base ∈ a.base, PageRange base a.size ∧ s.Unused base a.size) :
    ReservesFresh (memReserve env s a).2 := by
  have hadd : ∀ base size, PageRange base size → s.Unused base size → ReservesFresh
      { s with memReserves := s.memReserves ++
        [MemMap.init base size a.tag a.perms a.flags base s.blockSize a.shared none] } := by
    intro base size hp hu
    refine ⟨fun r hr => ?_, fun r hr x hx => ?_, ?_⟩
    · rcases List.mem_append.mp hr with hr | hr
      · exact hf.range r hr
      · cases List.mem_singleton.mp hr
        exact hp
    · rcases List.mem_append.mp hr with hr | hr
      · exact hf.unmapped r hr x hx
      · cases List.mem_singleton.mp hr
        exact (hu x hx.1 hx.2).1
    · apply List.pairwise_append.mpr
      refine ⟨hf.apart, by simp, fun r hr q hq x ⟨hx, hxq⟩ => ?_⟩
      cases List.mem_singleton.mp hq
      exact (hu x hxq.1 hxq.2).2 r hr hx
  unfold memReserve
  cases hb : a.base with
  | none =>
    cases hv : getValidRanges env s a.size none with
    | error e => exact hf
    | ok r =>
      obtain ⟨hp, _, hu⟩ := getValidRanges_spec hr hv
      exact hadd r.1 r.2 hp hu
  | some base =>
    obtain ⟨hp, hu⟩ := ha base hb
    exact hadd base a.size hp hu

/-- The invariant of states that `VirtualQuery` describes page by page. -/
structure QueryInv (s : MemoryManager ε) : Prop where
  inv : s.Inv (fun _ => False)
  fresh : ReservesFresh s

theorem QueryInv.step {env : WinEnv} {t : WinSession ε} (h : QueryInv t.win.mgr) {op : QueryOp}
    (ho : op.ReserveFresh t) : QueryInv (t.step env op).win.mgr := by
  obtain ⟨hi, hf⟩ := h
  cases op with
  | virtualProtect lpAddress dwSize flNewProtect lpflOldProtect =>
    refine ⟨virtualProtect_inv hi _ _ _ _, ?_⟩
    rcases protectPages_cases hi lpAddress dwSize flNewProtect lpflOldProtect with
      ⟨_, _, hs⟩ | ⟨mm, eng, _, _, hm, hp, hs⟩
    · simpa only [WinSession.step, virtualProtect_pages, hs] using hf
    · simp only [WinSession.step, virtualProtect_pages, hs]
      exact hf.sublist (List.Sublist.refl _)
        fun _ _ x _ hx => (WinMemory.mapped_of_permsAt hp hm x).mp hx
  | mem op =>
    have halign : op.ReserveAligned := by
      cases op with
      | memReserve a => exact fun base hb => (ho base hb).1.base_aligned
      | _ => trivial
    refine ⟨MemSession.step_inv (t := ⟨t.win.mgr, t.bases⟩) hi halign, ?_⟩
    cases op with
    | memMap a =>
      obtain ⟨h1, h2⟩ := memMap_reserves env.mem hi.reserves a
      exact hf.sublist (h1 ▸ List.Sublist.refl _) h2
    | memFree base =>
      obtain ⟨h1, h2⟩ := memFree_reserves env.mem hi base
      exact hf.sublist (h1 ▸ List.Sublist.refl _) fun _ _ x _ => h2 x
    | memReserve a => exact memReserve_fresh hi.reserves hf ho
    | memUnreserve base => exact hf.sublist List.filter_sublist fun _ _ _ _ hx => hx
    | memMapReserve base =>
      change ReservesFresh (memMapReserve env.mem t.win.mgr base).2
      unfold memMapReserve
      split
      next => exact hf
      next r hr =>
        have hsub := List.eraseP_sublist (p := fun x => x.base == r.base) (l := t.win.mgr.memReserves)
        have hrest : ReservesFresh { t.win.mgr with
            memReserves := t.win.mgr.memReserves.eraseP (fun x => x.base == r.base) } :=
          hf.sublist hsub fun _ _ _ _ hx => hx
        have haligned : ReservesAligned { t.win.mgr with
          memReserves := t.win.mgr.memReserves.eraseP (fun x => x.base == r.base) } :=
          fun q hq => hi.reserves q (hsub.subset hq)
        obtain ⟨h1, h2⟩ := memMap_reserves env.mem haligned
          { size := r.size, base := some r.base, perms := r.prot.getD permMemRwx, tag := r.tag }
        exact hrest.sublist (h1 ▸ List.Sublist.refl _) h2
    | enterAllocationsFrom base => exact hf.sublist (List.Sublist.refl _) fun _ _ _ _ hx => hx
    | leaveAllocationsFrom =>
      cases hb : t.bases with
      | nil => simpa only [WinSession.step, MemSession.step, hb] using hf
      | cons previous bases =>
        simp only [WinSession.step, MemSession.step, hb]
        exact hf.sublist (List.Sublist.refl _) fun _ _ _ _ hx => hx

/-- An engine that starts without mapped memory. -/
def EngineEmpty (e : ε) : Prop := memRegions e = []

omit [LawfulPageEngine ε] in
theorem queryInv_init {e : ε} (he : EngineEmpty e) : QueryInv (WinSession.init e).win.mgr := by
  have hno : ∀ a, ¬Mapped e a := by
    intro a hm
    obtain ⟨r, hr, _⟩ := mapped_iff.mp hm
    rw [he] at hr
    simp at hr
  have hinit := inv_init e
  refine ⟨{ hinit with sound := { hinit.sound with owned := fun a ha => absurd ha (hno a) } }, ?_⟩
  constructor <;> simp [WinSession.init, MemoryManager.init]

end

end

end Speakeasy
