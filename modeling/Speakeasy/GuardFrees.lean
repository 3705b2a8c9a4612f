import Speakeasy.GuardPages
import Speakeasy.PageExactness

namespace Speakeasy

section

open PageEngine MemoryManager

/-- An engine that protects only mapped pages of the range, also where it is not asked to do so exactly. -/
class FramedPageEngine (ε : Type) [PageEngine ε] : Prop where
  memProtect_frame (e : ε) {base size perms : Nat} {e' : ε} : PageEngine.memProtect e base size perms = .ok e' →
    ∀ a, permsAt e' a = if base ≤ a ∧ a < base + size ∧ Mapped e a then some perms else permsAt e a

/-- The page that the run loop gives permissions when it handles an exit. -/
def NativeExit.page : NativeExit → Option (Nat × Nat)
  | .raised exception => exception.guardPage
  | .execRecovery page perms => some (page, perms)

variable {ε : Type} [PageEngine ε]

theorem WinMemory.handleExit_none {w : WinMemory ε} {exit : NativeExit} (h : exit.page = none) :
    w.handleExit exit = w := by
  cases exit with
  | raised exception =>
    have hpage : exception.guardPage = none := h
    unfold WinMemory.handleExit
    simp only [hpage]
  | execRecovery page perms => cases h

theorem WinMemory.handleExit_page {w w' : WinMemory ε} {exit : NativeExit} {page perms : Nat}
    (h : exit.page = some (page, perms)) (hres : w.memProtect page pageSize perms = .ok w') :
    w.handleExit exit = w' := by
  cases exit with
  | raised exception =>
    have hpage : exception.guardPage = some (page, perms) := h
    unfold WinMemory.handleExit
    simp only [hpage, hres]
  | execRecovery page' perms' =>
    obtain ⟨rfl, rfl⟩ := Prod.mk.inj (Option.some.inj h)
    unfold WinMemory.handleExit
    simp only [hres]

structure GuardInv (t : GuardSession ε) : Prop where
  start : ProtectStart t.win
  aligned : ∀ page, t.win.guardPages page ≠ none → PageAligned page
  entry : ∀ page, PageAligned page → t.win.guardPages page = guardAsked t.history page
  locked : ∀ page, t.win.guardPages page ≠ none → permsAt t.win.mgr.emuEng page = some (ucPerms permMemNone)
  exit : ∀ {exit page perms}, t.nativeExit = some exit → exit.page = some (page, perms) →
    PageAligned page ∧ Mapped t.win.mgr.emuEng page ∧ t.win.guardPages page = none

section

variable {history : List PageTouch} {touch : PageTouch} {page : Nat}

theorem guardAsked_protect (event : PageEvent) : guardAsked (.protect event :: history) page =
    if event.Covers page then appliedGuard event.prot else guardAsked history page := by
  unfold guardAsked
  rw [List.find?_cons]
  by_cases h : event.Covers page
  · rw [if_pos h, decide_eq_true (show (PageTouch.protect event).Covers page from h)]
  · rw [if_neg h, decide_eq_false (show ¬(PageTouch.protect event).Covers page from h)]

theorem guardAsked_access (accessed : Nat) : guardAsked (.access accessed :: history) page =
    if page = accessed then none else guardAsked history page := by
  unfold guardAsked
  rw [List.find?_cons]
  by_cases h : page = accessed
  · rw [if_pos h, decide_eq_true (show (PageTouch.access accessed).Covers page from h)]
  · rw [if_neg h, decide_eq_false (show ¬(PageTouch.access accessed).Covers page from h)]

theorem guardAsked_free (range : Nat × Nat) : guardAsked (.free range :: history) page =
    if (PageTouch.free range).Covers page then none else guardAsked history page := by
  unfold guardAsked
  rw [List.find?_cons]
  by_cases h : (PageTouch.free range).Covers page
  · rw [if_pos h, decide_eq_true h]
  · rw [if_neg h, decide_eq_false h]

end

variable {t : GuardSession ε} {w w' : WinMemory ε} {base size prot : Nat}

theorem PagesGet.start (hg : PagesGet w w' base size prot) (h : ProtectStart w) (hinv : w'.mgr.Inv fun _ => False)
    (hwhole : ∀ m ∈ w'.mgr.maps, isVirtualAlloc m = true → PageAligned m.base ∧ PageAligned m.size) :
    ProtectStart w' := by
  refine ⟨hinv, fun page hpage => ?_, hwhole⟩
  rw [hg.mapped]
  rw [hg.guards page] at hpage
  split at hpage
  next hin => exact Or.inl hin.2
  next => exact Or.inr (h.guards_mapped page hpage)

theorem PagesGet.refl (w : WinMemory ε) (base prot : Nat) : PagesGet w w base 0 prot where
  perms a := by rw [if_neg (by omega)]
  guards page := by rw [if_neg (by omega)]

theorem GuardInv.pagesGet (h : GuardInv t) (hg : PagesGet t.win w' base size prot)
    (hstart : ProtectStart w') : GuardInv ⟨w', none, .protect ⟨base, size, prot⟩ :: t.history⟩ where
  start := hstart
  aligned page hpage := by
    have hguard := hg.guards page
    by_cases hin : PageAligned page ∧ base ≤ page ∧ page < base + size
    · exact hin.1
    · rw [if_neg hin] at hguard
      exact h.aligned page (hguard ▸ hpage)
  entry page hpage := by
    rw [guardAsked_protect, ← h.entry page hpage, hg.guards page]
    by_cases hin : base ≤ page ∧ page < base + size
    · rw [if_pos ⟨hpage, hin⟩, if_pos (show PageEvent.Covers ⟨base, size, prot⟩ page from hin)]
    · rw [if_neg fun hall => hin hall.2, if_neg (show ¬PageEvent.Covers ⟨base, size, prot⟩ page from hin)]
  locked page hpage := by
    show permsAt w'.mgr.emuEng page = _
    have hguard := hg.guards page
    rw [hg.perms page]
    by_cases hin : PageAligned page ∧ base ≤ page ∧ page < base + size
    · rw [if_pos hin] at hguard
      rw [if_pos hin.2]
      have hflag : hasFlag prot pageGuard = true := by
        by_contra hno
        have hnone : appliedGuard prot = none := if_neg hno
        exact hpage (hguard.trans hnone)
      unfold appliedPerms
      rw [if_pos hflag]
    · rw [if_neg hin] at hguard
      have hold : t.win.guardPages page ≠ none := hguard ▸ hpage
      rw [if_neg fun hrange => hin ⟨h.aligned page hold, hrange⟩]
      exact h.locked page hold
  exit := by
    intro exit page perms hsome
    cases hsome

/-- What happens to the pages that a call touches. -/
def Touched (w w' : WinMemory ε) : Option PageEvent → Prop
  | none => w' = w
  | some event => PagesGet w w' event.base event.size event.prot ∧ ProtectStart w'

theorem GuardInv.touched {event : Option PageEvent} (h : GuardInv t) (hexit : t.nativeExit = none)
    (htouched : Touched t.win w' event) :
    GuardInv { t with win := w', history := (event.map PageTouch.protect).toList ++ t.history } := by
  obtain ⟨win, nativeExit, history⟩ := t
  cases hexit
  cases event with
  | none =>
    cases htouched
    exact h
  | some event => exact h.pagesGet htouched.1 htouched.2

section

variable [LawfulPageEngine ε]

theorem virtualProtect_touched (h : ProtectStart w) (lpAddress dwSize flNewProtect lpflOldProtect : Nat) :
    Touched w (virtualProtect w lpAddress dwSize flNewProtect lpflOldProtect).2
      (protectEvent lpAddress dwSize flNewProtect (protectPages w lpAddress dwSize flNewProtect lpflOldProtect).1) := by
  have hinv := virtualProtect_inv h.inv lpAddress dwSize flNewProtect lpflOldProtect
  rw [virtualProtect_pages] at hinv ⊢
  cases protectPages_cases h.inv lpAddress dwSize flNewProtect lpflOldProtect with
  | inl hfailed =>
    obtain ⟨err, _, hres⟩ := hfailed
    rw [hres]
    rfl
  | inr hdone =>
    obtain ⟨mm, eng, _, _, hm, hperms, hres⟩ := hdone
    have hget : PagesGet w (protectPages w lpAddress dwSize flNewProtect lpflOldProtect).2 (pageOf lpAddress)
        (pageUp dwSize) flNewProtect := by
      rw [hres]
      exact ⟨hperms, fun page => by simp only [mem_pageSteps_aligned (pageOf_aligned lpAddress)]⟩
    have hstart := hget.start h hinv (by rw [hres]; exact isVirtualAlloc_setProt h.whole)
    rw [hres] at hget hstart ⊢
    exact ⟨hget, hstart⟩

theorem commitPages_touched (h : ProtectStart w) {mm : MemMap} {lpAddress : Nat}
    (hfound : (w.mgr.getAddressMap lpAddress).filter isVirtualAlloc = some mm) (dwSize flProtect : Nat) :
    ∃ w', commitPages w mm lpAddress dwSize flProtect = (.ok (pageOf lpAddress), w') ∧
      Touched w w' (some ⟨pageOf lpAddress,
        min (pageUp (lpAddress + dwSize)) (mm.base + mm.size) - pageOf lpAddress, flProtect⟩) := by
  obtain ⟨hg, hva⟩ := Option.filter_eq_some_iff.mp hfound
  obtain ⟨hmm, hc⟩ := mem_of_getAddressMap hg
  obtain ⟨hb, hs⟩ := h.whole mm hmm hva
  obtain ⟨w', hres, hw, hget, hmapped⟩ := commitPages_spec h.inv hmm hc hb hs dwSize flProtect
  have hinv : w'.mgr.Inv (fun _ => False) := by
    refine h.inv.congr (by rw [hw]) (fun a => ?_) (by rw [hw]) (by rw [hw]) (by rw [hw]) (by rw [hw])
    rw [hget.mapped]
    exact or_iff_right_of_imp fun hin => hmapped a hin.1 hin.2
  have hwhole : ∀ m ∈ w'.mgr.maps, isVirtualAlloc m = true → PageAligned m.base ∧ PageAligned m.size := by
    rw [hw]
    exact h.whole
  exact ⟨w', hres, hget, hget.start h hinv hwhole⟩

theorem virtualAllocAt_touched {env : WinEnv} (h : ProtectStart w) {total : Nat} (htotal : pageTotal total = total)
    (base flProtect : Nat) : (∃ e, virtualAllocAt env w base total flProtect = (.error e, w)) ∨
      ∃ buf w', virtualAllocAt env w base total flProtect = (.ok ⟨buf, none⟩, w') ∧
        Touched w w' (some ⟨buf, total, flProtect⟩) := by
  cases virtualAllocAt_spec h htotal flProtect with
  | inl hfailed => exact Or.inl hfailed
  | inr hdone =>
    obtain ⟨buf, w', hres, hget, hinv, hwhole, _⟩ := hdone
    exact Or.inr ⟨buf, w', hres, hget, hget.start h hinv hwhole⟩

theorem virtualAlloc_touched {env : WinEnv} (h : ProtectStart w) (lpAddress dwSize flAllocationType flProtect : Nat) :
    ∃ res w', virtualAlloc 0 env w lpAddress dwSize flAllocationType flProtect = some (res, w') ∧
      Touched w w' (allocTouch w lpAddress dwSize flAllocationType flProtect res) := by
  unfold virtualAlloc allocTouch
  cases hfound : (w.mgr.getAddressMap lpAddress).filter isVirtualAlloc with
  | some mm =>
    by_cases hcommit : hasFlag flAllocationType memCommit = true
    · obtain ⟨w', hres, htouched⟩ := commitPages_touched h hfound dwSize flProtect
      refine ⟨.ok ⟨pageOf lpAddress, none⟩, w', ?_, ?_⟩
      · simp only [hcommit, if_true, hres]
        rfl
      · simp only [hcommit, if_true]
        exact htouched
    · refine ⟨.ok ⟨lpAddress, none⟩, w, ?_, ?_⟩
      · simp only [hcommit, Bool.false_eq_true, if_false]
      · simp only [hcommit, Bool.false_eq_true, if_false]
        rfl
  | none =>
    simp only
    by_cases hzero : dwSize = 0
    · refine ⟨.ok ⟨0, none⟩, w, if_pos hzero, ?_⟩
      rw [hzero]
      exact ⟨PagesGet.refl w 0 flProtect, h⟩
    · rw [if_neg hzero]
      cases hvalid : getValidRanges env.mem w.mgr dwSize
          (some (if lpAddress ≠ 0 then pageOf lpAddress else env.virtualMemBase)) with
      | error e =>
        cases e with
        | outOfMemory => exact ⟨_, w, rfl, rfl⟩
        | uc e => exact ⟨_, w, rfl, rfl⟩
      | ok range =>
        obtain ⟨base, total⟩ := range
        have htotal := getValidRanges_total hvalid
        obtain ⟨hrange, _, _⟩ := getValidRanges_spec h.inv.reserves hvalid
        simp only
        by_cases hmoved : lpAddress ≠ 0 ∧ base ≠ (if lpAddress ≠ 0 then pageOf lpAddress else env.virtualMemBase)
        · exact ⟨.ok ⟨0, some errorInvalidAddress⟩, w, if_pos hmoved, rfl⟩
        · rw [if_neg hmoved, searchAligned_of_aligned env w.mgr 0 _ _ hrange.base_aligned]
          have hidem : pageTotal total = total := htotal ▸ pageTotal_idem _
          cases @virtualAllocAt_touched _ _ w _ env h total hidem base flProtect with
          | inl hfailed =>
            obtain ⟨e, hres⟩ := hfailed
            exact ⟨.error e, w, congrArg some hres, rfl⟩
          | inr hdone =>
            obtain ⟨buf, w', hres, htouched⟩ := hdone
            refine ⟨.ok ⟨buf, none⟩, w', congrArg some hres, ?_⟩
            rw [htotal, pageTotal_eq_pageUp (Nat.pos_of_ne_zero hzero)] at htouched
            exact htouched

end

end

section

section

open PageEngine MemoryManager

/-- The allocation is one of the list, apart from its free mark. -/
def FromMaps (ms : List MemMap) (m : MemMap) : Prop :=
  ∃ m₀ ∈ ms, m.base = m₀.base ∧ m.size = m₀.size ∧ m.tag = m₀.tag

theorem FromMaps.whole {ms : List MemMap} {m : MemMap} (h : FromMaps ms m)
    (hwhole : ∀ m ∈ ms, isVirtualAlloc m = true → PageAligned m.base ∧ PageAligned m.size)
    (hva : isVirtualAlloc m = true) : PageAligned m.base ∧ PageAligned m.size := by
  obtain ⟨m₀, hmem, hbase, hsize, htag⟩ := h
  rw [hbase, hsize]
  refine hwhole m₀ hmem ?_
  unfold isVirtualAlloc at hva ⊢
  rwa [htag] at hva

namespace WinMemory

theorem freeFirst_extents (lpAddress : Nat) (ms : List MemMap) :
    (freeFirst lpAddress ms).map MemMap.extent = ms.map MemMap.extent := by
  induction ms with
  | nil => rfl
  | cons m ms ih =>
    unfold freeFirst
    split
    next => rfl
    next => rw [List.map_cons, List.map_cons, ih]

theorem fromMaps_freeFirst {lpAddress : Nat} {ms : List MemMap} {m : MemMap} (h : m ∈ freeFirst lpAddress ms) :
    FromMaps ms m := by
  induction ms with
  | nil => cases h
  | cons x ms ih =>
    have hrest : ∀ m, FromMaps ms m → FromMaps (x :: ms) m := by
      rintro m ⟨m₀, hmem, hsame⟩
      exact ⟨m₀, List.mem_cons_of_mem _ hmem, hsame⟩
    unfold freeFirst at h
    split at h
    next =>
      cases List.mem_cons.mp h with
      | inl heq => exact ⟨x, List.mem_cons_self, by rw [heq]; exact ⟨rfl, rfl, rfl⟩⟩
      | inr hmem => exact hrest m ⟨m, hmem, rfl, rfl, rfl⟩
    next =>
      cases List.mem_cons.mp h with
      | inl heq => exact ⟨x, List.mem_cons_self, by rw [heq]; exact ⟨rfl, rfl, rfl⟩⟩
      | inr hmem => exact hrest m (ih hmem)

end WinMemory

variable {ε : Type} [PageEngine ε] {t : GuardSession ε} {w w' : WinMemory ε}

/-- Guard entries go away for the freed pages, and the other guard pages stay as they are. -/
theorem GuardInv.freed (h : GuardInv t) (hexit : t.nativeExit = none) {range : Option (Nat × Nat)}
    (hinv : w'.mgr.Inv fun _ => False) (hmaps : ∀ m ∈ w'.mgr.maps, FromMaps t.win.mgr.maps m)
    (hguards : ∀ page, PageAligned page → w'.guardPages page =
      match range with
      | none => t.win.guardPages page
      | some range => if (PageTouch.free range).Covers page then none else t.win.guardPages page)
    (hold : ∀ page, w'.guardPages page ≠ none → t.win.guardPages page ≠ none ∧
      permsAt w'.mgr.emuEng page = permsAt t.win.mgr.emuEng page) :
    GuardInv { t with win := w', history := (range.map PageTouch.free).toList ++ t.history } where
  start := by
    refine ⟨hinv, fun page hpage => ?_, fun m hm hva => (hmaps m hm).whole h.start.whole hva⟩
    obtain ⟨hguard, hperms⟩ := hold page hpage
    unfold Mapped
    rw [hperms]
    exact h.start.guards_mapped page hguard
  aligned page hpage := h.aligned page (hold page hpage).1
  entry page hpage := by
    show w'.guardPages page = _
    rw [hguards page hpage]
    cases range with
    | none => exact h.entry page hpage
    | some range =>
      show _ = guardAsked (.free range :: t.history) page
      rw [guardAsked_free, h.entry page hpage]
  locked page hpage := by
    obtain ⟨hguard, hperms⟩ := hold page hpage
    exact hperms.trans (h.locked page hguard)
  exit := by
    intro exit page perms hsome
    cases hexit.symm.trans hsome

/-- The allocation at the address is the one that holds it. -/
theorem GuardInv.getAddressMap_base (h : GuardInv t) {lpAddress : Nat} {m : MemMap}
    (hfind : t.win.mgr.maps.find? (·.base == lpAddress) = some m) : t.win.mgr.getAddressMap lpAddress = some m := by
  have hmem := List.mem_of_find?_eq_some hfind
  have hbase : m.base = lpAddress := by simpa using List.find?_some hfind
  have hcovers : m.Covers lpAddress := by
    have hinside := (h.start.inv.extent_inside hmem).1
    have hsize : 0 < m.size := hinside
    exact ⟨by omega, by omega⟩
  cases hg : t.win.mgr.getAddressMap lpAddress with
  | none => exact absurd (List.find?_eq_none.mp hg m hmem) (by simpa using hcovers)
  | some m' =>
    obtain ⟨hmem', hcovers'⟩ := mem_of_getAddressMap hg
    have hnodup : (t.win.mgr.maps.map MemMap.base).Nodup := List.pairwise_map.mpr h.start.inv.bases_distinct
    have hsame : m'.base = m.base := by
      by_contra hne
      have hapart := h.start.inv.apart_of_base_ne hmem' hmem hne
      unfold MemMap.Covers at hcovers hcovers'
      omega
    rw [List.inj_on_of_nodup_map hnodup hmem' hmem hsame]

theorem GuardInv.virtualFree (h : GuardInv t) (hexit : t.nativeExit = none) {lpAddress dwSize : Nat}
    (hclean : FreesClean t.win lpAddress dwSize) :
    GuardInv { t with
      win := (t.win.virtualFree lpAddress dwSize).2
      history := ((freedRange t.win lpAddress dwSize).map PageTouch.free).toList ++ t.history } := by
  unfold FreesClean at hclean
  unfold WinMemory.virtualFree
  cases hfind : t.win.mgr.maps.find? (·.base == lpAddress) with
  | none =>
    rw [hfind] at hclean
    refine h.freed hexit h.start.inv (fun m hm => ⟨m, hm, rfl, rfl, rfl⟩) (fun page hpage => ?_)
      fun page hpage => ⟨hpage, rfl⟩
    cases hrange : freedRange t.win lpAddress dwSize with
    | none => rfl
    | some range =>
      by_cases hguard : t.win.guardPages page = none
      · simp [hguard]
      · exact (if_neg (hclean page hguard range hrange)).symm
  | some m =>
    rw [hfind] at hclean
    have hg := h.getAddressMap_base hfind
    have hbase : m.base = lpAddress := by simpa using List.find?_some hfind
    have hinv : ({ t.win.mgr with maps := WinMemory.freeFirst lpAddress t.win.mgr.maps } : MemoryManager ε).Inv
        fun _ => False :=
      h.start.inv.congr (WinMemory.freeFirst_extents _ _) (fun a => Iff.rfl) rfl rfl rfl rfl
    refine h.freed hexit hinv (fun m hm => WinMemory.fromMaps_freeFirst hm) (fun page hpage => ?_) fun page hpage => ?_
    · show (if page ∈ pageSteps (pageOf m.base) (m.base + if dwSize = 0 then m.size else dwSize) then none
        else t.win.guardPages page) = _
      by_cases hguard : t.win.guardPages page = none
      · rw [hguard, ite_self]
        cases freedRange t.win lpAddress dwSize with
        | none => rfl
        | some range => exact (ite_self none).symm
      · have hnot := hclean page hguard
        have hrange : freedRange t.win lpAddress dwSize =
            some (m.base, min (m.base + if dwSize = 0 then m.size else dwSize) (m.base + m.size)) := by
          unfold freedRange
          rw [hg]
          by_cases hzero : dwSize = 0
          · simp [hzero, hbase]
          · simp [hzero, hbase]
        have hiff : page ∈ pageSteps (pageOf m.base) (m.base + if dwSize = 0 then m.size else dwSize) ↔
            (PageTouch.free (m.base, min (m.base + if dwSize = 0 then m.size else dwSize) (m.base + m.size))).Covers
              page := by
          rw [mem_pageSteps]
          unfold PageTouch.Covers
          split
          next hzero =>
            simp only [PageAligned, pageOf, pageSize] at *
            omega
          next hsize =>
            simp only [PageAligned, pageOf, pageSize] at *
            omega
        rw [hrange]
        simp only [hiff]
    · have hmem : t.win.guardPages page ≠ none := by
        intro hnone
        apply hpage
        show (if page ∈ _ then none else t.win.guardPages page) = none
        rw [hnone, ite_self]
      exact ⟨hmem, rfl⟩

variable [LawfulPageEngine ε]

/-- `mem_free` leaves every page outside the block that it unmaps. -/
theorem memFree_permsAt {env : MemEnv} {s : MemoryManager ε} {outside : Nat → Prop} (h : s.Inv outside) (address : Nat)
    {a : Nat} (hout : ∀ mm, s.getAddressMap address = some mm →
      (∀ m ∈ setFree address s.maps, m.blockBase = mm.blockBase → m.free = true) →
      ¬(mm.blockBase ≤ a ∧ a < mm.blockBase + mm.blockSize)) :
    permsAt (memFree env s address).2.emuEng a = permsAt s.emuEng a := by
  unfold memFree
  cases hg : s.getAddressMap address with
  | none => rfl
  | some mm =>
    simp only
    split
    next => rfl
    next =>
      split
      next hall =>
        have hmm := (mem_of_getAddressMap hg).1
        obtain ⟨eng, hunmap, hperms⟩ := LawfulPageEngine.memUnmap_exact s.emuEng (h.block_range mm hmm)
          fun a hl hu => h.block_mapped hmm hl hu
        have hfree : ∀ m ∈ setFree address s.maps, m.blockBase = mm.blockBase → m.free = true :=
          fun m hm hb => List.all_eq_true.mp hall m (List.mem_filter.mpr ⟨hm, beq_iff_eq.mpr hb⟩)
        have hout := hout mm hg hfree
        unfold EmuEngine.memUnmap
        rw [hunmap]
        exact (hperms a).trans (if_neg hout)
      next => rfl

omit [LawfulPageEngine ε] in
theorem fromMaps_setFree {s : MemoryManager ε} {outside : Nat → Prop} (h : s.Inv outside) {address : Nat} {m : MemMap}
    (hm : m ∈ setFree address s.maps) : FromMaps s.maps m := by
  cases of_mem_setFree h.maps_apart hm with
  | inl hfreed =>
    obtain ⟨x, hx, rfl⟩ := hfreed
    exact ⟨x, List.mem_of_find?_eq_some hx, rfl, rfl, rfl⟩
  | inr hmem => exact ⟨m, hmem.1, rfl, rfl, rfl⟩

theorem fromMaps_memFree {env : MemEnv} {s : MemoryManager ε} {outside : Nat → Prop} (h : s.Inv outside)
    {address : Nat} {m : MemMap} (hm : m ∈ (memFree env s address).2.maps) : FromMaps s.maps m := by
  cases memFree_cases env h address with
  | inl hnone =>
    rw [hnone.2] at hm
    exact ⟨m, hm, rfl, rfl, rfl⟩
  | inr hsome =>
    obtain ⟨mm, _, hcase⟩ := hsome
    cases hcase with
    | inl hkept =>
      rw [hkept.2] at hm
      exact fromMaps_setFree h hm
    | inr hunmapped =>
      obtain ⟨_, _, eng, _, hres⟩ := hunmapped
      rw [hres] at hm
      exact fromMaps_setFree h (List.mem_filter.mp hm).1

theorem GuardInv.unmapViewOfFile (h : GuardInv t) (hexit : t.nativeExit = none) {env : MemEnv} {lpBaseAddress : Nat}
    (hclean : UnmapsClean t.win lpBaseAddress) :
    GuardInv { t with
      win := (t.win.unmapViewOfFile env lpBaseAddress).2
      history := ((unmappedRange t.win lpBaseAddress).map PageTouch.free).toList ++ t.history } := by
  have hguards : (t.win.unmapViewOfFile env lpBaseAddress).2.guardPages = t.win.guardPages := by
    unfold WinMemory.unmapViewOfFile
    split
    next => rfl
    next => rfl
  have hmgr : (t.win.unmapViewOfFile env lpBaseAddress).2.mgr = (memFree env t.win.mgr lpBaseAddress).2 := by
    unfold WinMemory.unmapViewOfFile
    cases hg : t.win.mgr.getAddressMap lpBaseAddress with
    | none =>
      unfold memFree
      rw [hg]
    | some mm => rfl
  refine h.freed hexit (hmgr ▸ memFree_inv h.start.inv lpBaseAddress)
    (fun m hm => fromMaps_memFree h.start.inv (by rw [hmgr] at hm; exact hm)) (fun page hpage => ?_) fun page hpage => ?_
  · rw [hguards]
    cases hrange : unmappedRange t.win lpBaseAddress with
    | none => rfl
    | some range =>
      by_cases hguard : t.win.guardPages page = none
      · simp [hguard]
      · exact (if_neg (hclean page hguard range hrange)).symm
  · rw [hguards] at hpage
    refine ⟨hpage, ?_⟩
    rw [hmgr]
    refine memFree_permsAt h.start.inv lpBaseAddress fun mm hg hall hin => ?_
    have hrange : unmappedRange t.win lpBaseAddress = some (mm.blockBase, mm.blockBase + mm.blockSize) := by
      unfold unmappedRange
      rw [hg]
      exact if_pos hall
    refine hclean page hpage _ hrange ⟨?_, hin.2⟩
    show mm.blockBase < page + pageSize
    simp only [pageSize]
    omega

end

section

open PageEngine MemoryManager

variable {ε : Type} [PageEngine ε] {env : GuardEnv} {t : GuardSession ε} {w w' : WinMemory ε} {a size : Nat}
  {access : AccessType}

namespace WinMemory

omit [PageEngine ε] in
theorem raiseProtectionFault_guarded {perms : Nat} (hg : w.guardPages (pageOf a) = some perms) :
    w.raiseProtectionFault a access =
      (.raised ⟨statusGuardPageViolation, [access.code, a], some (pageOf a, perms)⟩,
        { w with guardPages := Function.update w.guardPages (pageOf a) none }) := by
  unfold raiseProtectionFault
  simp only [hg]

omit [PageEngine ε] in
theorem raiseProtectionFault_unguarded (hg : w.guardPages (pageOf a) = none) :
    w.raiseProtectionFault a access = (.raised ⟨statusAccessViolation, [access.code, a], none⟩, w) := by
  unfold raiseProtectionFault
  simp only [hg]

theorem guestAccess_guarded {perms : Nat} (hlocked : permsAt w.mgr.emuEng a = some (ucPerms permMemNone))
    (hg : w.guardPages (pageOf a) = some perms) : w.guestAccess env a size access =
      (some (.raised ⟨statusGuardPageViolation, [access.code, a], some (pageOf a, perms)⟩),
        { w with guardPages := Function.update w.guardPages (pageOf a) none }) := by
  have hdenied : ¬(ucPerms permMemNone &&& access.ucProt ≠ 0) := by
    show ¬(0 &&& access.ucProt ≠ 0)
    rw [Nat.zero_and]
    exact fun hne => hne rfl
  have hguarded : (w.guardPages (pageOf a)).isSome = true := by rw [hg]; rfl
  unfold guestAccess
  simp only [hlocked, if_neg hdenied]
  cases access with
  | fetch => simp only [hguarded, if_true, raiseProtectionFault_guarded hg]
  | read => simp only [raiseProtectionFault_guarded hg]
  | write =>
    unfold handleProtWrite
    simp [hguarded, raiseProtectionFault_guarded hg]

/-- What an access to a page without a guard entry can stop the engine for. -/
def QuietExit (page : Nat) : Option NativeExit → Prop
  | none => True
  | some (.raised exception) => exception.code = statusAccessViolation ∧ exception.guardPage = none
  | some (.execRecovery page' _) => page' = page

/-- The resource pages that an access to a page without a guard entry makes writable. -/
def Unprotects (env : GuardEnv) (w w' : WinMemory ε) (a size : Nat) (access : AccessType) : Prop :=
  ∃ perms base total, access = .write ∧ size ≤ 8 ∧ permsAt w.mgr.emuEng a = some perms ∧ perms &&& ucProtWrite = 0 ∧
    resourcePages env a = some (base, total) ∧ w.memProtect base total permMemRw = .ok w'

theorem handleProtFetch_quiet (nativePerms : Nat) : QuietExit (pageOf a) (handleProtFetch env a nativePerms) := by
  unfold handleProtFetch
  simp only
  split
  next =>
    split
    next =>
      cases enginePerms.find? (·.2 == nativePerms) with
      | none => trivial
      | some entry => rfl
    next => trivial
  next => trivial

theorem handleProtWrite_unguarded (hg : w.guardPages (pageOf a) = none) :
    QuietExit (pageOf a) (w.handleProtWrite env a size).1 ∧
      ((w.handleProtWrite env a size).2 = w ∨ ∃ base total, size ≤ 8 ∧ resourcePages env a = some (base, total) ∧
        w.memProtect base total permMemRw = .ok (w.handleProtWrite env a size).2) := by
  have hguarded : (w.guardPages (pageOf a)).isSome = false := by rw [hg]; rfl
  have hraised : QuietExit (pageOf a) (some (.raised ⟨statusAccessViolation, [AccessType.write.code, a], none⟩)) :=
    ⟨rfl, rfl⟩
  unfold handleProtWrite
  simp only [hguarded, true_and, Bool.false_eq_true, false_or]
  cases hres : (if size ≤ 8 then resourcePages env a else none) with
  | some range =>
    obtain ⟨base, total⟩ := range
    obtain ⟨hsize, hrange⟩ := (Option.ite_none_right_eq_some ..).mp hres
    cases hprotect : w.memProtect base total permMemRw with
    | error e =>
      simp only [hprotect]
      exact ⟨trivial, Or.inl trivial⟩
    | ok w' =>
      simp only [hprotect]
      exact ⟨trivial, Or.inr ⟨base, total, hsize, hrange, hprotect⟩⟩
  | none =>
    by_cases hdispatch : env.dispatchHandlers = true
    · simp only [hdispatch, if_true, raiseProtectionFault_unguarded hg]
      exact ⟨hraised, Or.inl trivial⟩
    · simp only [hdispatch, Bool.false_eq_true, if_false]
      exact ⟨trivial, Or.inl trivial⟩

theorem guestAccess_unguarded (hg : w.guardPages (pageOf a) = none) :
    QuietExit (pageOf a) (w.guestAccess env a size access).1 ∧
      ((w.guestAccess env a size access).2 = w ∨ Unprotects env w (w.guestAccess env a size access).2 a size access) ∧
      (∀ {page perms}, (w.guestAccess env a size access).1 = some (.execRecovery page perms) → Mapped w.mgr.emuEng a) := by
  unfold guestAccess
  cases hperms : permsAt w.mgr.emuEng a with
  | none => exact ⟨trivial, Or.inl rfl, fun hexit => by cases hexit⟩
  | some perms =>
    have hmapped : Mapped w.mgr.emuEng a := by
      unfold Mapped
      rw [hperms]
      exact Option.some_ne_none _
    simp only
    by_cases hdenied : perms &&& access.ucProt ≠ 0
    · rw [if_pos hdenied]
      exact ⟨trivial, Or.inl rfl, fun _ => hmapped⟩
    · rw [if_neg hdenied]
      have hraised : QuietExit (pageOf a) (some (.raised ⟨statusAccessViolation, [access.code, a], none⟩)) := ⟨rfl, rfl⟩
      cases access with
      | fetch =>
        have hguarded : (w.guardPages (pageOf a)).isSome = false := by rw [hg]; rfl
        simp only [hguarded, Bool.false_eq_true, if_false]
        exact ⟨handleProtFetch_quiet perms, Or.inl trivial, fun _ => hmapped⟩
      | read =>
        simp only [raiseProtectionFault_unguarded hg]
        exact ⟨hraised, Or.inl trivial, fun _ => hmapped⟩
      | write =>
        obtain ⟨hquiet, hmem⟩ := @handleProtWrite_unguarded _ _ env w a size hg
        refine ⟨hquiet, ?_, fun _ => hmapped⟩
        cases hmem with
        | inl hsame => exact Or.inl hsame
        | inr hres =>
          obtain ⟨base, total, hsize, hrange, hprotect⟩ := hres
          exact Or.inr ⟨perms, base, total, rfl, hsize, hperms, not_not.mp hdenied, hrange, hprotect⟩

end WinMemory

end

end

end Speakeasy
