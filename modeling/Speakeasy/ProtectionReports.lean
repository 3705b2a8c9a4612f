import Speakeasy.ProtectionRuns
import Speakeasy.VirtualQueryPartition

namespace Speakeasy

open PageEngine MemoryManager

variable {ε : Type} [PageEngine ε]

/-- A base on a page ends the search for an aligned base at its first test. -/
theorem searchAligned_of_aligned (env : WinEnv) (s : MemoryManager ε) (fuel size test : Nat) {base : Nat}
    (h : PageAligned base) : searchAligned env s fuel size test base = some (.ok (base, size)) := by
  unfold searchAligned
  exact if_neg (fun hn => hn.2 h)

variable {env : WinEnv} {t : ProtectSession ε}

/-- Without an event, a call that does not change the memory changes nothing. -/
theorem virtualAlloc_step_eq {lpAddress dwSize flAllocationType flProtect : Nat}
    {r : Except MemError ApiReturn}
    (h : virtualAlloc 0 env t.win lpAddress dwSize flAllocationType flProtect = some (r, t.win))
    (he : allocEvent t.win lpAddress dwSize flAllocationType flProtect r = none)
    (hn : newAllocation t.win lpAddress dwSize flProtect r = none) :
    t.step env (.virtualAlloc lpAddress dwSize flAllocationType flProtect) = t := by
  simp only [ProtectSession.step, h, he, hn, Option.toList_none, List.nil_append]

variable [LawfulPageEngine ε]

theorem ProtectInv.step_virtualAlloc (h : ProtectInv t) (lpAddress dwSize flAllocationType : Nat)
    {flProtect : Nat} (hv : flProtect ∈ validProtections) :
    ProtectInv (t.step env (.virtualAlloc lpAddress dwSize flAllocationType flProtect)) := by
  cases hf : (t.win.mgr.getAddressMap lpAddress).filter isVirtualAlloc with
  | some mm =>
    obtain ⟨hg, hva⟩ := Option.filter_eq_some_iff.mp hf
    obtain ⟨hmm, hc⟩ := mem_of_getAddressMap hg
    obtain ⟨hb, hs⟩ := h.start.whole mm hmm hva
    by_cases hcommit : hasFlag flAllocationType memCommit
    · obtain ⟨w', he, hw, hget, hmapped⟩ :=
        commitPages_spec h.start.inv hmm hc hb hs dwSize flProtect
      have hinv : w'.mgr.Inv (fun _ => False) := by
        refine h.start.inv.congr (by rw [hw]) (fun a => ?_) (by rw [hw]) (by rw [hw]) (by rw [hw])
          (by rw [hw])
        rw [hget.mapped]
        exact or_iff_right_of_imp fun hr => hmapped a hr.1 hr.2
      simp only [ProtectSession.step, virtualAlloc, hf, hcommit, if_true, he, Except.map, allocEvent, newAllocation,
        Option.toList_some, Option.toList_none, List.singleton_append, List.nil_append]
      refine h.pagesGet hget hv hinv ?_ (Or.inl rfl) (h.made.congr (by rw [hw]))
      rw [hw]
      exact h.start.whole
    · rw [virtualAlloc_step_eq (r := .ok ⟨lpAddress, none⟩)] <;>
        simp [virtualAlloc, allocEvent, newAllocation, hf, hcommit, h]
  | none =>
    by_cases hz : dwSize = 0
    · rw [virtualAlloc_step_eq (r := .ok ⟨0, none⟩)] <;> simp [virtualAlloc, allocEvent, newAllocation, hf, hz, h]
    cases hr : getValidRanges env.mem t.win.mgr dwSize
        (some (if lpAddress ≠ 0 then pageOf lpAddress else env.virtualMemBase)) with
    | error e =>
      cases e with
      | outOfMemory =>
        rw [virtualAlloc_step_eq (r := .ok ⟨0, some errorNotEnoughMemory⟩)]
        · exact h
        · simp only [virtualAlloc, hf, hz, hr, if_false]
        · simp [allocEvent, hf]
        · simp [newAllocation, hf]
      | uc e =>
        rw [virtualAlloc_step_eq (r := .error (.uc e))]
        · exact h
        · simp only [virtualAlloc, hf, hz, hr, if_false]
        · simp [allocEvent, hf]
        · simp [newAllocation, hf]
    | ok r =>
      obtain ⟨base, total⟩ := r
      have hpos := Nat.pos_of_ne_zero hz
      have htotal := getValidRanges_total hr
      obtain ⟨hrange, _, _⟩ := getValidRanges_spec h.start.inv.reserves hr
      by_cases hne : lpAddress ≠ 0 ∧
          base ≠ (if lpAddress ≠ 0 then pageOf lpAddress else env.virtualMemBase)
      · rw [virtualAlloc_step_eq (r := .ok ⟨0, some errorInvalidAddress⟩)]
        · exact h
        · simp only [virtualAlloc, hf, hz, hr, if_false, if_pos hne]
        · simp [allocEvent, hf]
        · simp [newAllocation, hf]
      · have hstep : virtualAlloc 0 env t.win lpAddress dwSize flAllocationType flProtect =
            some (virtualAllocAt env t.win base total flProtect) := by
          simp only [virtualAlloc, hf, hz, hr, if_false, if_neg hne,
            searchAligned_of_aligned env t.win.mgr 0 _ _ hrange.base_aligned]
        have hidem : pageTotal total = total := htotal ▸ pageTotal_idem _
        rcases virtualAllocAt_spec h.start hidem flProtect with
          ⟨e, he⟩ | ⟨buf, w', he, hget, hinv, hwhole, ⟨mm, hmaps, hbuf, htot, hflags⟩, hfree⟩
        · rw [virtualAlloc_step_eq (r := .error e) (by rw [hstep, he]) (by simp [allocEvent, hf])
            (by simp [newAllocation, hf])]
          exact h
        · have hnew : newAllocation t.win lpAddress dwSize flProtect (.ok ⟨buf, none⟩) =
              some ⟨mm.base, mm.size, flProtect⟩ := by
            simp only [newAllocation, hf]
            rw [if_pos ⟨hz, trivial⟩, hbuf, htot, htotal, pageTotal_eq_pageUp hpos]
          have hnone : ∀ a, mm.Covers a → t.win.mgr.getAddressMap a = none := by
            intro a ha
            rw [MemMap.Covers, hbuf, htot] at ha
            by_contra hsome
            obtain ⟨m, hm⟩ := Option.ne_none_iff_exists'.mp hsome
            exact hfree a ha.1 ha.2 (h.start.inv.covers_mapped (mem_of_getAddressMap hm).1 (mem_of_getAddressMap hm).2)
          simp only [ProtectSession.step, hstep, he, hnew, Option.toList_some, List.singleton_append]
          refine h.pagesGet hget hv hinv hwhole ?_ (h.made.append hv hmaps hflags hnone)
          by_cases hbuf : buf = 0
          · -- An allocation at address 0 looks like a failure, so the call gives its pages nothing.
            exact Or.inr ⟨by simp [allocEvent, hf, hbuf], hfree⟩
          · exact Or.inl (by simp [allocEvent, hf, hbuf, htotal, pageTotal_eq_pageUp hpos])

theorem ProtectInv.step_virtualProtect (h : ProtectInv t) (lpAddress dwSize lpflOldProtect : Nat)
    {flNewProtect : Nat} (hv : flNewProtect ∈ validProtections) :
    ProtectInv (t.step env (.virtualProtect lpAddress dwSize flNewProtect lpflOldProtect)) := by
  have hinv := virtualProtect_inv h.start.inv lpAddress dwSize flNewProtect lpflOldProtect
  rw [virtualProtect_pages] at hinv
  rcases protectPages_cases h.start.inv lpAddress dwSize flNewProtect lpflOldProtect with
    ⟨err, _, hs⟩ | ⟨mm, eng, _, _, hm, hp, hs⟩
  · have heq : t.step env (.virtualProtect lpAddress dwSize flNewProtect lpflOldProtect) = t := by
      simp [ProtectSession.step, virtualProtect_pages, hs, protectEvent]
    rw [heq]
    exact h
  · rw [hs] at hinv
    simp only [ProtectSession.step, virtualProtect_pages, hs, protectEvent, Option.toList_some,
      List.singleton_append]
    refine h.pagesGet ⟨hp, fun p => ?_⟩ hv hinv (isVirtualAlloc_setProt h.start.whole) (Or.inl rfl)
      (h.made.setProt rfl)
    simp only [mem_pageSteps_aligned (pageOf_aligned lpAddress)]

theorem ProtectInv.step (h : ProtectInv t) {op : ProtectOp} (ho : op.Valid) :
    ProtectInv (t.step env op) := by
  cases op with
  | virtualAlloc lpAddress dwSize flAllocationType flProtect => exact h.step_virtualAlloc _ _ _ ho
  | virtualProtect lpAddress dwSize flNewProtect lpflOldProtect =>
    exact h.step_virtualProtect _ _ _ ho.2.2

theorem ProtectInv.run (h : ProtectInv t) {ops : List ProtectOp} (ho : ∀ op ∈ ops, op.Valid) :
    ProtectInv (t.run env ops) := by
  induction ops generalizing t with
  | nil => exact h
  | cons op ops ih =>
    exact ih (h.step (ho op List.mem_cons_self)) fun o hm => ho o (List.mem_cons_of_mem _ hm)

omit [LawfulPageEngine ε] in
theorem protectInv_init {w : WinMemory ε} (h : ProtectStart w) : ProtectInv (ProtectSession.init w) :=
  ⟨h, by simp [ProtectSession.init, MadeWith, lastProt], by simp [ProtectSession.init, lastProt]⟩

omit [LawfulPageEngine ε] in
/-- `VirtualQuery` reports the last protection of every page. -/
theorem ProtectInv.virtualQuery_protect (h : ProtectInv t) {lpBuffer dwLength : Nat}
    (hb : lpBuffer ≠ 0) (hl : MemoryBasicInformation.sizeof env ≤ dwLength) {p q : Nat}
    (hp : PageAligned p) (hq : lastProt t.history p = some q) :
    ∃ m, virtualQuery env t.win p lpBuffer dwLength = .ok m ∧ m.protect = q := by
  obtain ⟨hv, hperms, hguard⟩ := h.covered p q hp hq
  obtain ⟨mm, hmm⟩ : ∃ mm, t.win.mgr.getAddressMap p = some mm := by
    obtain ⟨m, hm, hc⟩ := h.start.inv.accounted_of_aligned hp (h.mapped hp hq)
    exact Option.isSome_iff_exists.mp (List.find?_isSome.mpr ⟨m, hm, by simpa using hc⟩)
  obtain ⟨r, hr, hrp⟩ : ∃ r, t.win.mgr.getMemRegions.find? (fun r => decide (r.Covers p)) = some r ∧
      r.perms = ucPerms (appliedPerms q) := Option.map_eq_some_iff.mp hperms
  refine ⟨_, by rw [virtualQuery, if_neg (by omega)]; simp only [hmm]; rfl, ?_⟩
  simp only [hr, hp.pageOf_eq, hguard, hrp, ucToPerms_of_valid _ hv]
  exact reported_of_valid q hv

/-- The record of an allocation still says what its page last got, the guard flag apart: its flags,
or its permissions when it has no flags. -/
def MemMap.Remembers (mm : MemMap) (prot : Nat) : Prop :=
  if mm.flags ≠ 0 then withoutGuard mm.flags = withoutGuard prot
  else emuPermsToWinPerms (mm.prot.getD permMemNone) = withoutGuard prot

/-- `VirtualProtect` stores the last protection of the first page of its range. -/
def ProtectOp.ReportsLast (t : ProtectSession ε) : ProtectOp → Prop
  | .virtualAlloc .. => True
  | .virtualProtect lpAddress dwSize flNewProtect lpflOldProtect => ∀ r old,
    (Speakeasy.virtualProtect t.win lpAddress dwSize flNewProtect lpflOldProtect).1 = .ok (r, some old) →
    ∀ q, lastProt t.history lpAddress = some q → old = q

/-- A call of `VirtualProtect` on a mapped range, with a mapped place for the old protection: its first page has the
protection that the call gave that allocated it, the guard flag apart, so no call changed it, or one changed it back. For
an allocation that no call made, the record says what the page last got. -/
def ProtectOp.Remembered (t : ProtectSession ε) : ProtectOp → Prop
  | .virtualAlloc .. => True
  | .virtualProtect lpAddress dwSize _ lpflOldProtect => lpflOldProtect ≠ 0 →
    DwordMapped t.win.mgr.emuEng lpflOldProtect →
    (∀ a, lpAddress ≤ a → a < lpAddress + pageUp dwSize → Mapped t.win.mgr.emuEng a) →
    ∀ q, lastProt t.history lpAddress = some q →
      (∀ first, lastProt t.allocs lpAddress = some first → withoutGuard first = withoutGuard q) ∧
      (lastProt t.allocs lpAddress = none → ∀ mm, t.win.mgr.getAddressMap lpAddress = some mm → mm.Remembers q)

omit [LawfulPageEngine ε] in
theorem ProtectInv.remembers_iff_allocs (h : ProtectInv t) (a q : Nat) :
    (∀ mm, t.win.mgr.getAddressMap a = some mm → mm.Remembers q) ↔
      (∀ first, lastProt t.allocs a = some first → withoutGuard first = withoutGuard q) ∧
      (lastProt t.allocs a = none → ∀ mm, t.win.mgr.getAddressMap a = some mm → mm.Remembers q) := by
  cases hfirst : lastProt t.allocs a with
  | none => simp
  | some first =>
    obtain ⟨hv, mm, hmm, hflags⟩ := h.made a first hfirst
    have hpos : mm.flags ≠ 0 := by
      rw [hflags]
      exact ne_zero_of_valid _ hv
    have hremembers : mm.Remembers q ↔ withoutGuard first = withoutGuard q := by
      rw [MemMap.Remembers, if_pos hpos, hflags]
    simp [hmm, hremembers]

theorem remembers_iff (mm : MemMap) (q : Nat) :
    mm.Remembers q ↔ withoutGuard (savedProtection mm) = withoutGuard q := by
  unfold MemMap.Remembers savedProtection
  split
  · exact Iff.rfl
  · rw [withoutGuard_emuPermsToWinPerms]

theorem ProtectInv.reportsLast_iff (h : ProtectInv t) {op : ProtectOp} (ho : op.Valid) :
    op.ReportsLast t ↔ op.Remembered t := by
  cases op with
  | virtualAlloc => exact iff_of_true trivial trivial
  | virtualProtect lpAddress dwSize flNewProtect lpflOldProtect =>
    have hpage := ho.1.pageOf_eq
    simp only [ProtectOp.ReportsLast, ProtectOp.Remembered, ← h.remembers_iff_allocs]
    simp only [remembers_iff]
    rcases protectPages_cases h.start.inv lpAddress dwSize flNewProtect lpflOldProtect with
      ⟨err, hwhy, hs⟩ | ⟨mm, eng, hg, hold, hm, hp, hs⟩
    · rw [hpage] at hwhy
      refine iff_of_true (by simp [Speakeasy.virtualProtect, hs]) fun hold _ hm _ _ mm hg => ?_
      rcases hwhy with hn | hn | hn
      · simp [hn] at hg
      · exact absurd hn hold
      · exact absurd hm hn
    · have hstore : DwordMapped eng lpflOldProtect ↔ DwordMapped t.win.mgr.emuEng lpflOldProtect :=
        forall₂_congr fun i _ => WinMemory.mapped_of_permsAt hp hm (lpflOldProtect + i)
      rw [hpage] at hm hs
      -- The report has the guard flag right, so it is right when the rest is.
      have hreport : ∀ q, lastProt t.history lpAddress = some q →
          (withoutGuard (savedProtection mm) |||
              (if (t.win.guardPages lpAddress).isSome then pageGuard else 0) = q ↔
            withoutGuard (savedProtection mm) = withoutGuard q) := by
        intro q hq
        obtain ⟨hv, _, hguard⟩ := h.covered lpAddress q ho.1 hq
        obtain ⟨hsome, hsplit⟩ := guard_of_valid q hv
        rw [hguard, hsome]
        by_cases hgd : hasFlag q pageGuard
        · simp only [hgd, if_true, withoutGuard_or] at hsplit ⊢
          omega
        · simp only [hgd, Bool.false_eq_true, if_false, Nat.or_zero] at hsplit ⊢
          omega
      simp only [Speakeasy.virtualProtect, hs, hstore]
      constructor
      · intro hr _ hdword _ q hq mm' hg'
        cases hg.symm.trans hg'
        exact (hreport q hq).mp (hr _ _ (by rw [if_pos hdword]) q hq)
      · intro hr r old heq q hq
        split at heq
        next hdword =>
          cases heq
          exact (hreport q hq).mpr (hr hold hdword hm q hq mm hg)
        next => cases heq

/-- From every start, after any valid calls: `VirtualQuery` reports the last protection of every
page, and all calls of `VirtualProtect` report the last protection of their first page exactly when
every one of them finds on it what the call gave that allocated it. -/
theorem protection_run_reports {w : WinMemory ε} (hw : ProtectStart w) {ops : List ProtectOp}
    (ho : ∀ op ∈ ops, op.Valid) :
    (∀ lpBuffer dwLength, lpBuffer ≠ 0 → MemoryBasicInformation.sizeof env ≤ dwLength →
      ∀ p q, PageAligned p → lastProt ((ProtectSession.init w).run env ops).history p = some q →
      ∃ m, virtualQuery env ((ProtectSession.init w).run env ops).win p lpBuffer dwLength = .ok m ∧
        m.protect = q) ∧
    ((∀ pre op, pre ++ [op] <+: ops → op.ReportsLast ((ProtectSession.init w).run env pre)) ↔
      ∀ pre op, pre ++ [op] <+: ops → op.Remembered ((ProtectSession.init w).run env pre)) := by
  have hinit := protectInv_init hw
  have hiff : ∀ pre op, pre ++ [op] <+: ops →
      (op.ReportsLast ((ProtectSession.init w).run env pre) ↔
        op.Remembered ((ProtectSession.init w).run env pre)) := by
    intro pre op hpre
    have hvalid := fun o hm => ho o (hpre.subset hm)
    exact (hinit.run fun o hm => hvalid o (List.mem_append_left _ hm)).reportsLast_iff
      (hvalid op (List.mem_append_right _ List.mem_cons_self))
  refine ⟨fun lpBuffer dwLength hb hl p q hp hq => (hinit.run ho).virtualQuery_protect hb hl hp hq, ?_⟩
  exact ⟨fun h pre op hpre => (hiff pre op hpre).mp (h pre op hpre),
    fun h pre op hpre => (hiff pre op hpre).mpr (h pre op hpre)⟩

def freshMemory : WinMemory RegionEngine := ⟨MemoryManager.init emptyEngine, fun _ => none⟩

theorem protectStart_freshMemory : ProtectStart freshMemory :=
  ⟨(queryInv_init (e := emptyEngine) rfl).inv, by simp [freshMemory],
    by simp [freshMemory, MemoryManager.init]⟩

def allocThenProtect : List ProtectOp :=
  [.virtualAlloc 0x20000 0x2000 0x3000 pageReadwrite,
    .virtualProtect 0x20000 0x1000 (pageReadonly ||| pageGuard) 0x21000]

theorem protection_run_reports_allocThenProtect :
    ∃ m, virtualQuery plainWin ((ProtectSession.init freshMemory).run plainWin allocThenProtect).win
      0x20000 0x500 28 = .ok m ∧ m.protect = pageReadonly ||| pageGuard :=
  (@protection_run_reports _ _ _ _ _ protectStart_freshMemory allocThenProtect (by decide)).1
    0x500 28 (by decide) (by decide) 0x20000 (pageReadonly ||| pageGuard) (by decide) (by decide)

def protectTwice : List ProtectOp :=
  [.virtualAlloc 0x20000 0x1000 0x3000 pageReadwrite,
    .virtualProtect 0x20000 0x1000 pageExecuteRead 0x20800]

/-- The second change of a page reports the protection of its allocation, not of the first change. -/
theorem protection_run_protectTwice :
    ¬∀ ops : List ProtectOp, (∀ op ∈ ops, op.Valid) → ∀ pre op, pre ++ [op] <+: ops →
      op.ReportsLast ((ProtectSession.init freshMemory).run plainWin pre) := by
  intro h
  have hrep := h (protectTwice ++ [.virtualProtect 0x20000 0x1000 pageReadwrite 0x20800]) (by decide)
    protectTwice _ List.prefix_rfl
  have heq : pageReadwrite = pageExecuteRead :=
    hrep ⟨1, none⟩ pageReadwrite (by decide) pageExecuteRead (by decide)
  simp [pageReadwrite, pageExecuteRead] at heq

end Speakeasy
