import Speakeasy.GuardFrees

namespace Speakeasy

section

open PageEngine MemoryManager

namespace WinMemory

variable {ε : Type} [PageEngine ε]

/-- The memory with another engine. -/
def withEngine (w : WinMemory ε) (eng : ε) : WinMemory ε := { w with mgr := { w.mgr with emuEng := eng } }

theorem memProtect_framed [FramedPageEngine ε] {w w' : WinMemory ε} {base size perms : Nat}
    (h : w.memProtect base size perms = .ok w') : ∃ eng, w' = w.withEngine eng ∧
      ∀ a, permsAt eng a = if base ≤ a ∧ a < base + size ∧ Mapped w.mgr.emuEng a then some (ucPerms perms)
        else permsAt w.mgr.emuEng a := by
  unfold memProtect EmuEngine.memProtect at h
  cases hprotect : PageEngine.memProtect w.mgr.emuEng base size (ucPerms perms) with
  | error e =>
    rw [hprotect] at h
    cases h
  | ok eng =>
    rw [hprotect] at h
    exact ⟨eng, (Except.ok.inj h).symm, FramedPageEngine.memProtect_frame _ hprotect⟩

end WinMemory

variable {ε : Type} [PageEngine ε] {env : GuardEnv} {t t' : GuardSession ε} {a size : Nat} {access : AccessType}

/-- New permissions of pages without a guard entry keep the invariant. -/
theorem GuardInv.withEngine (h : GuardInv t) {eng : ε} {exit : Option NativeExit} {history : List PageTouch}
    (hmapped : ∀ a, Mapped eng a ↔ Mapped t.win.mgr.emuEng a)
    (hkept : ∀ page, t.win.guardPages page ≠ none → permsAt eng page = permsAt t.win.mgr.emuEng page)
    (hentry : ∀ page, PageAligned page → t.win.guardPages page = guardAsked history page)
    (hexit : ∀ {e page perms}, exit = some e → e.page = some (page, perms) →
      PageAligned page ∧ Mapped t.win.mgr.emuEng page ∧ t.win.guardPages page = none) :
    GuardInv ⟨t.win.withEngine eng, exit, history⟩ where
  start := ⟨h.start.inv.congr rfl hmapped rfl rfl rfl rfl,
    fun page hpage => (hmapped page).mpr (h.start.guards_mapped page hpage), h.start.whole⟩
  aligned := h.aligned
  entry := hentry
  locked page hpage := (hkept page hpage).trans (h.locked page hpage)
  exit := by
    intro e page perms hsome hpage
    obtain ⟨haligned, hold, hnone⟩ := hexit hsome hpage
    exact ⟨haligned, (hmapped page).mpr hold, hnone⟩

section

variable [LawfulPageEngine ε]

theorem GuardInv.locked_at (h : GuardInv t) {perms : Nat} (hg : t.win.guardPages (pageOf a) = some perms) :
    permsAt t.win.mgr.emuEng a = some (ucPerms permMemNone) := by
  rw [← permsAt_pageOf]
  refine h.locked (pageOf a) ?_
  rw [hg]
  exact Option.some_ne_none perms

omit [LawfulPageEngine ε] in
theorem GuardInv.access_guarded (h : GuardInv t) {perms : Nat} (hg : t.win.guardPages (pageOf a) = some perms) :
    GuardInv ⟨{ t.win with guardPages := Function.update t.win.guardPages (pageOf a) none },
      some (.raised ⟨statusGuardPageViolation, [access.code, a], some (pageOf a, perms)⟩),
      .access (pageOf a) :: t.history⟩ := by
  have hold : ∀ page, Function.update t.win.guardPages (pageOf a) none page ≠ none →
      page ≠ pageOf a ∧ t.win.guardPages page ≠ none := by
    intro page hpage
    by_cases heq : page = pageOf a
    · rw [heq, Function.update_self] at hpage
      exact absurd rfl hpage
    · rw [Function.update_of_ne heq] at hpage
      exact ⟨heq, hpage⟩
  refine ⟨⟨h.start.inv, fun page hpage => h.start.guards_mapped page (hold page hpage).2, h.start.whole⟩,
    fun page hpage => h.aligned page (hold page hpage).2, fun page hpage => ?_,
    fun page hpage => h.locked page (hold page hpage).2, fun {e page perms'} hsome hpage => ?_⟩
  · show Function.update t.win.guardPages (pageOf a) none page = _
    rw [guardAsked_access]
    by_cases heq : page = pageOf a
    · rw [if_pos heq, heq, Function.update_self]
    · rw [if_neg heq, Function.update_of_ne heq, h.entry page hpage]
  · cases hsome
    obtain ⟨rfl, rfl⟩ := Prod.mk.inj (Option.some.inj hpage)
    refine ⟨pageOf_aligned a, ?_, Function.update_self ..⟩
    exact h.start.guards_mapped (pageOf a) (by rw [hg]; exact Option.some_ne_none _)

theorem GuardInv.access_unguarded [FramedPageEngine ε] (h : GuardInv t) (hg : t.win.guardPages (pageOf a) = none)
    (hclean : GuardOp.Clean env t.win (.access a size access)) :
    GuardInv ⟨(t.win.guestAccess env a size access).2, (t.win.guestAccess env a size access).1,
      .access (pageOf a) :: t.history⟩ := by
  obtain ⟨hquiet, hmem, hrecovers⟩ := @WinMemory.guestAccess_unguarded _ _ env t.win a size access hg
  have hentry : ∀ page, PageAligned page → t.win.guardPages page = guardAsked (.access (pageOf a) :: t.history) page := by
    intro page hpage
    rw [guardAsked_access]
    by_cases heq : page = pageOf a
    · rw [if_pos heq, heq, hg]
    · rw [if_neg heq, h.entry page hpage]
  have hexit : ∀ {e page perms}, (t.win.guestAccess env a size access).1 = some e → e.page = some (page, perms) →
      PageAligned page ∧ Mapped t.win.mgr.emuEng page ∧ t.win.guardPages page = none := by
    intro e page perms hsome hpage
    rw [hsome] at hquiet
    cases e with
    | raised exception => rw [NativeExit.page, hquiet.2] at hpage; cases hpage
    | execRecovery page' perms' =>
      have hsame : page' = pageOf a := hquiet
      obtain ⟨rfl, rfl⟩ := Prod.mk.inj (Option.some.inj hpage)
      rw [hsame]
      exact ⟨pageOf_aligned a, mapped_pageOf.mpr (hrecovers hsome), hg⟩
  cases hmem with
  | inl hsame =>
    have hinv := @GuardInv.withEngine _ _ t h t.win.mgr.emuEng _ _ (fun a => Iff.rfl) (fun page _ => rfl) hentry hexit
    rw [hsame]
    exact hinv
  | inr hunprotects =>
    obtain ⟨perms, base, total, rfl, hsize, hperms, hdenied, hrange, hprotect⟩ := hunprotects
    have hclean : WritesClean env t.win a size := hclean
    have hout := hclean hg hsize perms hperms hdenied base total _ hrange hprotect
    obtain ⟨eng, heng, hframe⟩ := WinMemory.memProtect_framed hprotect
    rw [heng]
    refine h.withEngine (fun b => ?_) (fun page hpage => ?_) hentry hexit
    · unfold Mapped
      rw [hframe b]
      split
      next hin => exact iff_of_true (Option.some_ne_none _) hin.2.2
      next => rfl
    · rw [hframe page, if_neg]
      have hpageout := hout page hpage
      omega

theorem GuardInv.handleExit (h : GuardInv t) {exit : NativeExit} (hexit : t.nativeExit = some exit) :
    GuardInv { t with win := t.win.handleExit exit, nativeExit := none } ∧
      (t.win.handleExit exit).guardPages = t.win.guardPages ∧
      ∀ page perms, exit.page = some (page, perms) → ∀ b, permsAt (t.win.handleExit exit).mgr.emuEng b =
        if pageOf b = page then some (ucPerms perms) else permsAt t.win.mgr.emuEng b := by
  have hnone : ∀ {e : NativeExit} {page perms}, none = some e → e.page = some (page, perms) →
      PageAligned page ∧ Mapped t.win.mgr.emuEng page ∧ t.win.guardPages page = none := fun hsome => by cases hsome
  cases hpage : exit.page with
  | none =>
    have hinv := @GuardInv.withEngine _ _ t h t.win.mgr.emuEng none _ (fun a => Iff.rfl) (fun page _ => rfl) h.entry hnone
    rw [WinMemory.handleExit_none hpage]
    exact ⟨hinv, rfl, fun page perms hsome => by cases hsome⟩
  | some entry =>
    obtain ⟨page, perms⟩ := entry
    obtain ⟨haligned, hmapped, hguard⟩ := h.exit hexit hpage
    have hall : ∀ b, page ≤ b → b < page + pageSize → Mapped t.win.mgr.emuEng b := by
      intro b hl hu
      have hsame : pageOf b = page := by
        simp only [PageAligned, pageOf, pageSize] at *
        omega
      rwa [← mapped_pageOf, hsame]
    have hsize : PageAligned pageSize := rfl
    obtain ⟨eng, hres, hperms⟩ := t.win.memProtect_spec perms haligned hsize hall
    have hsame : ∀ b, (page ≤ b ∧ b < page + pageSize) ↔ pageOf b = page := by
      intro b
      simp only [PageAligned, pageOf, pageSize] at *
      omega
    rw [WinMemory.handleExit_page hpage hres]
    refine ⟨h.withEngine (WinMemory.mapped_of_permsAt hperms hall) (fun page' hpage' => ?_) h.entry hnone, rfl,
      fun page' perms' hsome b => ?_⟩
    · rw [hperms, if_neg]
      intro hin
      have heq := (hsame page').mp hin
      rw [(h.aligned page' hpage').pageOf_eq] at heq
      exact hpage' (heq ▸ hguard)
    · obtain ⟨rfl, rfl⟩ := Prod.mk.inj (Option.some.inj hsome)
      rw [hperms b]
      simp only [hsame]

end

end

section

open PageEngine MemoryManager

variable {ε : Type} [PageEngine ε] {env : GuardEnv} {t t' : GuardSession ε} {w : WinMemory ε}

theorem guardInv_init (hw : ProtectStart w) (hnone : ∀ page, w.guardPages page = none) :
    GuardInv (GuardSession.init w) where
  start := hw
  aligned page hpage := absurd (hnone page) hpage
  entry page _ := hnone page
  locked page hpage := absurd (hnone page) hpage
  exit := by
    intro exit page perms hsome
    cases hsome

section

variable [LawfulPageEngine ε] [FramedPageEngine ε]

theorem GuardInv.access (h : GuardInv t) {a size : Nat} {access : AccessType}
    (hclean : GuardOp.Clean env t.win (.access a size access)) :
    GuardInv ⟨(t.win.guestAccess env a size access).2, (t.win.guestAccess env a size access).1,
      .access (pageOf a) :: t.history⟩ := by
  cases hg : t.win.guardPages (pageOf a) with
  | none => exact h.access_unguarded hg hclean
  | some perms =>
    have hres := @WinMemory.guestAccess_guarded _ _ env t.win a size access perms (h.locked_at hg) hg
    rw [hres]
    exact h.access_guarded hg

theorem GuardInv.step (h : GuardInv t) {op : GuardOp} (hclean : op.Clean env t.win) (hstep : t.step env op = some t') :
    GuardInv t' := by
  unfold GuardSession.step at hstep
  cases hexit : t.nativeExit with
  | some exit =>
    rw [hexit] at hstep
    cases op with
    | handleExit =>
      rw [← Option.some.inj hstep]
      exact (h.handleExit hexit).1
    | _ => cases hstep
  | none =>
    rw [hexit] at hstep
    cases op with
    | handleExit => cases hstep
    | virtualAlloc lpAddress dwSize flAllocationType flProtect =>
      obtain ⟨res, w', hres, htouched⟩ :=
        @virtualAlloc_touched _ _ t.win _ env.win h.start lpAddress dwSize flAllocationType flProtect
      simp only [hres, Option.map_some] at hstep
      rw [← Option.some.inj hstep]
      have hinv := h.touched hexit htouched
      rwa [hexit] at hinv
    | virtualProtect lpAddress dwSize flNewProtect lpflOldProtect =>
      rw [← Option.some.inj hstep]
      have hinv := h.touched hexit (virtualProtect_touched h.start lpAddress dwSize flNewProtect lpflOldProtect)
      rwa [hexit] at hinv
    | virtualFree lpAddress dwSize =>
      rw [← Option.some.inj hstep]
      have hinv := h.virtualFree hexit hclean
      rwa [hexit] at hinv
    | unmapViewOfFile lpBaseAddress =>
      rw [← Option.some.inj hstep]
      have hinv := @GuardInv.unmapViewOfFile _ _ t _ h hexit env.win.mem lpBaseAddress hclean
      rwa [hexit] at hinv
    | access address size access =>
      rw [← Option.some.inj hstep]
      exact h.access hclean

theorem GuardRun.inv (hw : ProtectStart w) (hnone : ∀ page, w.guardPages page = none)
    (hrun : GuardRun env (GuardOp.Clean env) w t) : GuardInv t := by
  induction hrun with
  | init => exact guardInv_init hw hnone
  | step _ hclean hstep ih => exact ih.step hclean hstep

omit [FramedPageEngine ε] in
theorem GuardInv.first (h : GuardInv t) {a perms : Nat} (hexit : t.nativeExit = none)
    (hg : t.win.guardPages (pageOf a) = some perms) (size : Nat) (access : AccessType) :
    ∃ t₁ t₂, t.step env (.access a size access) = some t₁ ∧
      t₁.nativeExit = some (.raised ⟨statusGuardPageViolation, [access.code, a], some (pageOf a, perms)⟩) ∧
      t₁.step env .handleExit = some t₂ ∧ t₂.nativeExit = none ∧
      t₂.win.guardPages = Function.update t.win.guardPages (pageOf a) none ∧
      ∀ b, permsAt t₂.win.mgr.emuEng b =
        if pageOf b = pageOf a then some (ucPerms perms) else permsAt t.win.mgr.emuEng b := by
  let exit : NativeExit := .raised ⟨statusGuardPageViolation, [access.code, a], some (pageOf a, perms)⟩
  let t₁ : GuardSession ε := ⟨{ t.win with guardPages := Function.update t.win.guardPages (pageOf a) none }, some exit,
    .access (pageOf a) :: t.history⟩
  have hraised : GuardInv t₁ := h.access_guarded hg
  obtain ⟨_, hguards, hperms⟩ := hraised.handleExit rfl
  refine ⟨t₁, { t₁ with win := t₁.win.handleExit exit, nativeExit := none }, ?_, rfl, rfl, rfl, hguards,
    hperms (pageOf a) perms rfl⟩
  unfold GuardSession.step
  simp only [hexit, WinMemory.guestAccess_guarded (h.locked_at hg) hg]
  rfl

omit [LawfulPageEngine ε] [FramedPageEngine ε] in
theorem GuardInv.quiet (h : GuardInv t) {a size : Nat} {access : AccessType}
    (hasked : guardAsked t.history (pageOf a) = none) (hstep : t.step env (.access a size access) = some t') :
    ¬t'.RaisesGuard := by
  have hg : t.win.guardPages (pageOf a) = none := (h.entry _ (pageOf_aligned a)).trans hasked
  unfold GuardSession.step at hstep
  cases hexit : t.nativeExit with
  | some exit =>
    rw [hexit] at hstep
    cases hstep
  | none =>
    rw [hexit] at hstep
    have hquiet := (@WinMemory.guestAccess_unguarded _ _ env t.win a size access hg).1
    rw [← Option.some.inj hstep]
    rintro ⟨exception, hraised, hcode⟩
    have hraised : (t.win.guestAccess env a size access).1 = some (.raised exception) := hraised
    rw [hraised] at hquiet
    rw [hquiet.1] at hcode
    simp [statusAccessViolation, statusGuardPageViolation] at hcode

/-- In a run whose steps all meet the condition, guard pages are one-shot in every state. -/
theorem guardRun_law (hw : ProtectStart w) (hnone : ∀ page, w.guardPages page = none)
    (hrun : GuardRun env (GuardOp.Clean env) w t) : GuardLaw env t := by
  have h := hrun.inv hw hnone
  refine ⟨fun {page} hpage => h.entry page hpage, fun {a perms} hg => ⟨_, h.locked_at hg, fun access => ?_⟩,
    fun {a perms} hexit hg size access => h.first hexit hg size access,
    fun {a t'} hasked size access hstep => h.quiet hasked hstep⟩
  show 0 &&& access.ucProt = 0
  exact Nat.zero_and _

end

instance : FramedPageEngine RegionEngine where
  memProtect_frame e base size perms e' h a := by
    have h : RegionEngine.memProtect e base size perms = .ok e' := h
    by_cases hzero : size = 0
    · unfold RegionEngine.memProtect at h
      rw [if_pos hzero] at h
      rw [← Except.ok.inj h, if_neg (by omega)]
    · by_cases hrange : PageRange base size
      · obtain ⟨e₂, hres, hperms⟩ := RegionEngine.memProtect_frame e perms hrange
        rw [Except.ok.inj (h.symm.trans hres)]
        exact hperms a
      · unfold RegionEngine.memProtect at h
        rw [if_neg hzero, dif_neg hrange] at h
        cases h

/-- A user mode emulator without modules. -/
def plainGuard : GuardEnv where
  win := plainWin
  getModFromAddr := fun _ => none
  overlapsTraps := fun _ => false
  shouldStopOnFaults := false
  dispatchHandlers := true

/-- A mapped view of a page, as the memory manager makes it. -/
def viewMemory : WinMemory RegionEngine :=
  ⟨(memMap plainWin.mem (MemoryManager.init emptyEngine)
    { size := 0x1000, base := some 0x20000, perms := permMemRw }).2, fun _ => none⟩

theorem protectStart_viewMemory : ProtectStart viewMemory where
  inv := memMap_inv protectStart_freshMemory.inv _
  guards_mapped page hpage := absurd rfl hpage
  whole m hm hva := by
    have hmaps : viewMemory.mgr.maps.all (fun m => !isVirtualAlloc m) = true := by decide
    have hno := List.all_eq_true.mp hmaps m hm
    rw [hva] at hno
    cases hno

/-- The view after it became a guard page. -/
def guardedView : GuardSession RegionEngine where
  win := (virtualProtect viewMemory 0x20000 0x1000 (pageReadwrite ||| pageGuard) 0x20800).2
  nativeExit := none
  history := [.protect ⟨0x20000, 0x1000, pageReadwrite ||| pageGuard⟩]

theorem guardRun_guardedView {cond : WinMemory RegionEngine → GuardOp → Prop}
    (h : cond viewMemory (.virtualProtect 0x20000 0x1000 (pageReadwrite ||| pageGuard) 0x20800)) :
    GuardRun plainGuard cond viewMemory guardedView :=
  GuardRun.step GuardRun.init h rfl

theorem guardRun_law_guardedView : GuardLaw plainGuard guardedView :=
  guardRun_law protectStart_viewMemory (fun _ => rfl) (guardRun_guardedView trivial)

def unmappedView : GuardSession RegionEngine where
  win := (guardedView.win.unmapViewOfFile plainWin.mem 0x20000).2
  nativeExit := none
  history := .free (0x20000, 0x21000) :: guardedView.history

/-- Other memory, which `VirtualAlloc` gives at the address of the view. -/
def allocatedView : GuardSession RegionEngine :=
  (unmappedView.step plainGuard (.virtualAlloc 0x20000 0x1000 0x3000 pageNoaccess)).get (by decide)

/-- The guard page of an unmapped view stays, so that the new memory there has it. -/
theorem guardRun_unmappedView : ¬∀ (w : WinMemory RegionEngine) (t : GuardSession RegionEngine), ProtectStart w →
    (∀ page, w.guardPages page = none) → GuardRun plainGuard (fun _ _ => True) w t → GuardLaw plainGuard t := by
  intro h
  have hunmapped : GuardRun plainGuard (fun _ _ => True) viewMemory unmappedView :=
    @GuardRun.step _ _ plainGuard _ viewMemory guardedView _ (.unmapViewOfFile 0x20000)
      (guardRun_guardedView trivial) trivial rfl
  have hallocated : GuardRun plainGuard (fun _ _ => True) viewMemory allocatedView :=
    hunmapped.step trivial (Option.some_get _).symm
  have hlaw := h viewMemory allocatedView protectStart_viewMemory (fun _ => rfl) hallocated
  have hentry := @GuardLaw.entry _ _ _ _ hlaw 0x20000 rfl
  exact absurd hentry (by decide)

end

end Speakeasy
