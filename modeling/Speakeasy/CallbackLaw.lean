import Speakeasy.CallbackStacks
import Speakeasy.MemoryRuns

namespace Speakeasy

open PageEngine

namespace CallbackRun

variable {ε : Type} [PageEngine ε] {arch : Arch} {s s' : CallbackRun arch ε}

/-- A frame after `alloca`, with or without the region. -/
theorem alloca_spec {f : CallbackFrame arch} {rest : List (CallbackFrame arch)}
    (hs : s.callbacks = f :: rest) (hf : f.Sound) {data : List UInt8}
    (h : (s.alloca data).map Prod.snd = some s') :
    s'.cpu = s.cpu ∧ s'.inHandler = s.inHandler ∧ ∃ f', s'.callbacks = f' :: rest ∧ f'.Sound ∧
      f'.savedRegisters = f.savedRegisters ∧ f'.caller = f.caller := by
  have hle := align16_le (f.stackPointer.toNat - f.scratch - data.length)
  have hmod := align16_mod (f.stackPointer.toNat - f.scratch - data.length)
  have hscratch := hf.scratch_nonneg
  unfold alloca at h
  rw [hs] at h
  simp only at h
  generalize align16 (f.stackPointer.toNat - f.scratch - data.length) = address at h hle hmod
  have hbelow : ∀ r ∈ f.regions, address + (data.length : Int) ≤ r.1 := by
    intro r hr
    have := hf.scratch r hr
    omega
  cases hwrite : s.mem.writeAt address data with
  | none =>
    rw [hwrite] at h
    cases h
    refine ⟨rfl, rfl, _, rfl, ⟨⟨hf.regions.aligned, hf.regions.below, hf.regions.apart⟩,
      ?_, ?_, hf.caller, hf.saved⟩, rfl, rfl⟩
    · show (0 : Int) ≤ f.stackPointer.toNat - address
      omega
    · intro r hr
      have := hbelow r hr
      show (f.stackPointer.toNat : Int) - (f.stackPointer.toNat - address) ≤ r.1
      omega
  | some mem =>
    rw [hwrite] at h
    cases h
    refine ⟨rfl, rfl, _, rfl, ⟨⟨?_, ?_, ?_⟩, ?_, ?_, hf.caller, hf.saved⟩, rfl, rfl⟩
    · intro r hr
      rcases List.mem_cons.mp hr with heq | hr
      · rw [heq]
        exact hmod
      · exact hf.regions.aligned r hr
    · intro r hr
      rcases List.mem_cons.mp hr with heq | hr
      · rw [heq]
        show address + (data.length : Int) ≤ f.stackPointer.toNat
        omega
      · exact hf.regions.below r hr
    · exact List.pairwise_cons.mpr ⟨fun r hr => Or.inl (hbelow r hr), hf.regions.apart⟩
    · show (0 : Int) ≤ f.stackPointer.toNat - address
      omega
    · intro r hr
      show (f.stackPointer.toNat : Int) - (f.stackPointer.toNat - address) ≤ r.1
      rcases List.mem_cons.mp hr with heq | hr
      · rw [heq]
        show (f.stackPointer.toNat : Int) - (f.stackPointer.toNat - address) ≤ address
        omega
      · have := hbelow r hr
        omega

theorem dropLeft_suffix (sp : Nat) (callbacks : List (CallbackFrame arch)) :
    dropLeft sp callbacks <:+ callbacks := by
  induction callbacks with
  | nil => exact List.suffix_refl _
  | cons f rest ih =>
    cases rest with
    | nil => exact List.suffix_refl _
    | cons g rest =>
      unfold dropLeft
      split
      · exact ih.trans (List.suffix_cons _ _)
      · exact List.suffix_refl _

theorem dropLeft_ne_nil (sp : Nat) {callbacks : List (CallbackFrame arch)} (h : callbacks ≠ []) :
    dropLeft sp callbacks ≠ [] := by
  induction callbacks with
  | nil => exact absurd rfl h
  | cons f rest ih =>
    cases rest with
    | nil => exact List.cons_ne_nil _ _
    | cons g rest =>
      unfold dropLeft
      split
      · exact ih (List.cons_ne_nil _ _)
      · exact List.cons_ne_nil _ _

omit [PageEngine ε] in
theorem Inv.handler (h : Inv s) (hin : s.inHandler = true) : ∃ f rest, s.callbacks = f :: rest ∧
    HandlerRuns s f ∧ ∀ g ∈ rest, g.savedRegisters ≠ none := by
  obtain ⟨f, hf, hruns⟩ := h.running hin
  cases hc : s.callbacks with
  | nil =>
    rw [hc] at hf
    cases hf
  | cons g rest =>
    rw [hc] at hf
    cases hf
    refine ⟨_, rest, rfl, hruns, ?_⟩
    have hwaiting := h.waiting
    rw [hin, hc] at hwaiting
    exact hwaiting

omit [PageEngine ε] in
theorem Inv.waits (h : Inv s) (hin : s.inHandler = false) : ∀ f ∈ s.callbacks, f.savedRegisters ≠ none := by
  have hwaiting := h.waiting
  rw [hin] at hwaiting
  exact hwaiting

omit [PageEngine ε] in
/-- Guest code runs after the step, in frames that wait. -/
theorem Inv.guest (h : Inv s) (hin : s'.inHandler = false) (hsub : s'.callbacks ⊆ s.callbacks)
    (hwaits : ∀ f ∈ s'.callbacks, f.savedRegisters ≠ none) : Inv s' where
  sound f hf := h.sound f (hsub hf)
  waiting := by
    rw [hin]
    exact hwaits
  running hrun := by
    rw [hin] at hrun
    cases hrun

omit [PageEngine ε] in
theorem Inv.start (h : Inv s) (hin : s.inHandler = false) {frame : CallbackFrame arch}
    {rest : List (CallbackFrame arch)} (hsub : rest ⊆ s.callbacks)
    (hregions : frame.regions = []) (hscratch : frame.scratch = 0) (hsaved : frame.savedRegisters = none)
    (hcaller : ∀ c ∈ frame.caller, c = s.cpu ∧ frame.stackPointer = s.cpu .sp) :
    Inv { s with callbacks := frame :: rest, inHandler := true } where
  sound f hf := by
    rcases List.mem_cons.mp hf with heq | hf
    · rw [heq]
      refine ⟨⟨?_, ?_, ?_⟩, by rw [hscratch], ?_, ?_, ?_⟩
      · rw [hregions]
        intro r hr
        cases hr
      · rw [hregions]
        intro r hr
        cases hr
      · rw [hregions]
        exact List.Pairwise.nil
      · rw [hregions]
        intro r hr
        cases hr
      · intro c hc
        obtain ⟨hcpu, hsp⟩ := hcaller c hc
        rw [hcpu, hsp]
      · rw [hsaved]
        intro values hvalues
        cases hvalues
    · exact h.sound f (hsub hf)
  waiting f hf := h.waits hin f (hsub hf)
  running _ := by
    refine ⟨frame, rfl, fun _ c hc => (hcaller c hc).1.symm, ?_⟩
    intro hne
    exact absurd hsaved hne

theorem Inv.step (h : Inv s) {op : CallbackOp arch ε} (hs : s.step op = some s') : Inv s' := by
  cases op with
  | guest cpu mem =>
    simp only [CallbackRun.step] at hs
    split at hs
    next => cases hs
    next hin =>
      have hin := Bool.eq_false_iff.mpr hin
      cases hs
      exact h.guest hin (List.Subset.refl _) (h.waits hin)
  | startApi argc convention =>
    simp only [CallbackRun.step] at hs
    split at hs
    next => cases hs
    next hin =>
      have hin := Bool.eq_false_iff.mpr hin
      unfold CallbackRun.startApi at hs
      split at hs
      next => cases hs
      next word _ =>
        cases hs
        exact h.start hin (List.Subset.refl _) rfl rfl rfl fun c hc => ⟨(Option.some.inj hc).symm, rfl⟩
  | startDispatch stackPointer =>
    simp only [CallbackRun.step] at hs
    split at hs
    next => cases hs
    next hin =>
      have hin := Bool.eq_false_iff.mpr hin
      cases hs
      exact h.start hin (List.dropWhile_subset _) rfl rfl rfl fun c hc => nomatch hc
  | alloca data =>
    simp only [CallbackRun.step] at hs
    split at hs
    next hin =>
      obtain ⟨f, rest, hc, hruns, hrest⟩ := h.handler hin
      obtain ⟨hcpu, hin', f', hc', hsound, hsaved, hcaller⟩ :=
        alloca_spec hc (h.sound f (hc ▸ List.mem_cons_self)) hs
      refine ⟨?_, ?_, ?_⟩
      · rw [hc']
        intro g hg
        rcases List.mem_cons.mp hg with heq | hg
        · exact heq ▸ hsound
        · exact h.sound g (hc ▸ List.mem_cons_of_mem _ hg)
      · rw [hin', hin, hc']
        exact hrest
      · intro _
        refine ⟨f', by rw [hc']; rfl, ?_, ?_⟩
        · rw [hsaved, hcaller, hcpu]
          exact hruns.fresh
        · rw [hsaved, hcpu]
          exact hruns.resumed
    next => cases hs
  | guestCall call =>
    simp only [CallbackRun.step] at hs
    split at hs
    next hin =>
      obtain ⟨f, rest, hc, hruns, hrest⟩ := h.handler hin
      have hf := h.sound f (hc ▸ List.mem_cons_self)
      obtain ⟨hin', hc', -⟩ := startGuestCallback_spec hc hf hs
      refine ⟨?_, ?_, ?_⟩
      · rw [hc']
        intro g hg
        rcases List.mem_cons.mp hg with heq | hg
        · rw [heq]
          refine ⟨⟨hf.regions.aligned, hf.regions.below, hf.regions.apart⟩, hf.scratch_nonneg, hf.scratch,
            hf.caller, ?_⟩
          intro values hvalues c hcaller
          cases hvalues
          cases hsaved : f.savedRegisters with
          | none => rw [hruns.fresh hsaved c hcaller, Option.getD_none]
          | some values => exact hf.saved values hsaved c hcaller
        · exact h.sound g (hc ▸ List.mem_cons_of_mem _ hg)
      · rw [hin', hc']
        intro g hg
        rcases List.mem_cons.mp hg with heq | hg
        · rw [heq]
          exact Option.some_ne_none _
        · exact hrest g hg
      · intro hrun
        rw [hin'] at hrun
        cases hrun
    next => cases hs
  | callbackReturn =>
    simp only [CallbackRun.step] at hs
    split at hs
    next => cases hs
    next hin =>
      have hin := Bool.eq_false_iff.mpr hin
      unfold CallbackRun.callbackReturn at hs
      split at hs
      next hpc =>
        cases hs
        have hsuffix := dropLeft_suffix (s.cpu.regRead .sp) s.callbacks
        refine ⟨fun f hf => h.sound f (hsuffix.subset hf), ?_, ?_⟩
        · intro f hf
          exact h.waits hin f (hsuffix.subset (List.mem_of_mem_tail hf))
        · intro _
          obtain ⟨f, rest, hdrop⟩ := List.exists_cons_of_ne_nil
            (dropLeft_ne_nil (s.cpu.regRead .sp) hpc.2)
          refine ⟨f, by rw [hdrop]; rfl, ?_, fun _ => hpc.1⟩
          intro hnone
          exact absurd hnone (h.waits hin f (hsuffix.subset (hdrop ▸ List.mem_cons_self)))
      next => cases hs
  | returnValue result =>
    simp only [CallbackRun.step] at hs
    split at hs
    next hin =>
      obtain ⟨f, rest, hc, -, hrest⟩ := h.handler hin
      unfold CallbackRun.returnValue at hs
      rw [hc] at hs
      cases hs
      exact h.guest rfl (fun g hg => hc ▸ List.mem_cons_of_mem _ hg) hrest
    next => cases hs
  | resume context =>
    simp only [CallbackRun.step] at hs
    split at hs
    next hin =>
      obtain ⟨f, rest, hc, -, hrest⟩ := h.handler hin
      cases hs
      have hsub : dropAbandoned (context.regRead .sp) s.callbacks.tail ⊆ rest := by
        rw [hc]
        exact List.dropWhile_subset _
      exact h.guest rfl (fun g hg => hc ▸ List.mem_cons_of_mem _ (hsub hg)) fun g hg => hrest g (hsub hg)
    next => cases hs

end CallbackRun

namespace CallbackRun

variable {ε : Type} [PageEngine ε] {arch : Arch} {s s' : CallbackRun arch ε}

/-- The registers that an API call leaves as it found them, or sets by its return. -/
def callRegs (arch : Arch) : List Reg := .sp :: .pc :: nonvolatile arch

/-- The return of the handler leaves what the API call would leave without guest calls. -/
def ReturnsAsCalled (s s' : CallbackRun arch ε) (result : Option Int) : Prop :=
  ∀ f ∈ s.callbacks.head?, ∀ c ∈ f.caller, ∀ r ∈ callRegs arch,
    s'.cpu r = doCallReturn c f.argc f.returnAddress result f.convention r

/-- The API call has a return address, or its handler made no guest call. -/
def ReturnsProper (s : CallbackRun arch ε) : Prop :=
  ∀ f ∈ s.callbacks.head?, ∀ c ∈ f.caller, f.returnAddress ≠ 0 ∨ f.savedRegisters = none ∨
    c.regRead .pc = guestCallbackReturnAddr

structure CallbackLaw (s : CallbackRun arch ε) (ops : List (CallbackOp arch ε)) : Prop where
  regions : ∀ pre s', pre <+: ops → s.run pre = some s' → ∀ f ∈ s'.callbacks, f.RegionsSound
  calls : ∀ pre call s₁ s₂, pre ++ [.guestCall call] <+: ops → s.run pre = some s₁ →
    s₁.step (.guestCall call) = some s₂ → ∀ f ∈ s₁.callbacks.head?, ∃ top, EntersBelow s₁ s₂ f top
  returns : ∀ pre result s₁ s₂, pre ++ [.returnValue result] <+: ops → s.run pre = some s₁ →
    s₁.step (.returnValue result) = some s₂ → ReturnsAsCalled s₁ s₂ result

/-- Each handler that returns a value does so properly. -/
def ProperReturns (s : CallbackRun arch ε) (ops : List (CallbackOp arch ε)) : Prop :=
  ∀ pre result s', pre ++ [.returnValue result] <+: ops → s.run pre = some s' → s'.inHandler = true →
    ReturnsProper s'

theorem Inv.run (h : Inv s) {ops : List (CallbackOp arch ε)} (hrun : s.run ops = some s') : Inv s' := by
  induction ops generalizing s with
  | nil =>
    cases hrun
    exact h
  | cons op ops ih =>
    unfold CallbackRun.run at hrun
    rw [List.foldlM_cons] at hrun
    obtain ⟨u, hu, hrun⟩ := Option.bind_eq_some_iff.mp hrun
    exact ih (h.step hu) hrun

omit [PageEngine ε] in
theorem inv_initial (cpu : Cpu arch) (mem : GuestMemory ε) : Inv (initial cpu mem) := by
  refine ⟨?_, ?_, ?_⟩
  · intro f hf
    cases hf
  · intro f hf
    cases hf
  · intro hrun
    cases hrun

/-- The registers before the return, when the handler made a guest call. -/
theorem restored_agree {f : CallbackFrame arch} {c : Cpu arch} (hc : c .sp = f.stackPointer) {r : Reg}
    (hr : r = .sp ∨ r ∈ nonvolatile arch) (cpu : Cpu arch) :
    Cpu.Agree r ((cpu.regWrite .sp f.stackPointer.toNat).regWriteAll (saveRegisters c)) c := by
  have hsp : ((cpu.regWrite .sp f.stackPointer.toNat).regWriteAll (saveRegisters c)) .sp = c .sp := by
    rw [Cpu.regWriteAll_other]
    · have hread := c.ofInt_regRead .sp
      unfold Cpu.regRead at hread
      rw [Cpu.regWrite_self, ← hc, hread]
    · intro v hv
      obtain ⟨q, hq, hv⟩ := List.mem_map.mp hv
      rw [← hv]
      intro heq
      have hq : Reg.sp ∈ nonvolatile arch := heq ▸ hq
      cases arch with
      | x86 => exact absurd hq (by decide)
      | amd64 => exact absurd hq (by decide)
  rcases hr with hr | hr
  · rw [hr]
    exact ⟨hsp, hsp⟩
  · exact ⟨hsp, Cpu.regWriteAll_saved c hr⟩

theorem pc_restored {f : CallbackFrame arch} (c cpu : Cpu arch) :
    ((cpu.regWrite .sp f.stackPointer.toNat).regWriteAll (saveRegisters c)) .pc = cpu .pc := by
  rw [Cpu.regWriteAll_other]
  · exact Cpu.regWrite_other (by decide) _
  · intro v hv
    obtain ⟨q, hq, hv⟩ := List.mem_map.mp hv
    rw [← hv]
    intro heq
    have hq : Reg.pc ∈ nonvolatile arch := heq ▸ hq
    cases arch with
    | x86 => exact absurd hq (by decide)
    | amd64 => exact absurd hq (by decide)

/-- A handler leaves what the API call would leave exactly when it returns properly. -/
theorem Inv.returnsAsCalled_iff (h : Inv s) {result : Option Int}
    (hs : s.step (.returnValue result) = some s') : ReturnsAsCalled s s' result ↔ ReturnsProper s := by
  simp only [CallbackRun.step] at hs
  split at hs
  next hin =>
    obtain ⟨f, rest, hcs, hruns, -⟩ := h.handler hin
    have hf := h.sound f (hcs ▸ List.mem_cons_self)
    have hcpu : s'.cpu = doCallReturn ((s.cpu.regWrite .sp f.stackPointer.toNat).regWriteAll
        (f.savedRegisters.getD [])) f.argc f.returnAddress result f.convention := by
      unfold CallbackRun.returnValue at hs
      rw [hcs] at hs
      cases hs
      rfl
    unfold ReturnsAsCalled ReturnsProper
    rw [hcs, hcpu]
    constructor
    · intro hall g hg c hc
      cases hg
      by_cases hret : f.returnAddress = 0
      · right
        cases hsaved : f.savedRegisters with
        | none => exact Or.inl rfl
        | some values =>
          right
          have hpc := hall f rfl c hc .pc (List.mem_cons_of_mem _ List.mem_cons_self)
          rw [hret, doCallReturn_pc_stays, doCallReturn_pc_stays, hsaved, Option.getD_some,
            hf.saved values hsaved c hc, pc_restored] at hpc
          have hresumed := hruns.resumed (by rw [hsaved]; exact Option.some_ne_none _)
          unfold Cpu.regRead at hresumed ⊢
          rw [← hpc]
          exact hresumed
      · exact Or.inl hret
    · intro hall g hg c hc r hr
      cases hg
      have hproper := hall f rfl c hc
      cases hsaved : f.savedRegisters with
      | none =>
        -- No guest call: the registers are still those of the API call.
        have hsame := hruns.fresh hsaved c hc
        have hwrite : (s.cpu.regWrite .sp f.stackPointer.toNat) = c := by
          funext q
          by_cases hq : q = .sp
          · have hread := c.ofInt_regRead .sp
            unfold Cpu.regRead at hread
            rw [hq, Cpu.regWrite_self, ← hf.caller c hc, hread]
          · rw [Cpu.regWrite_other hq, hsame]
        show doCallReturn ((s.cpu.regWrite .sp f.stackPointer.toNat)) _ _ _ _ r = _
        rw [hwrite]
      | some values =>
        rw [Option.getD_some, hf.saved values hsaved c hc]
        rcases List.mem_cons.mp hr with hr | hr
        · exact ((restored_agree (hf.caller c hc) (Or.inl hr) s.cpu).doCallReturn _ _ _ _).2
        · rcases List.mem_cons.mp hr with hr | hr
          · rw [hr]
            have hsp := (restored_agree (hf.caller c hc) (Or.inl rfl) s.cpu).1
            by_cases hret : f.returnAddress = 0
            · have hpc : c.regRead .pc = guestCallbackReturnAddr := by
                rcases hproper with hne | hnone | hpc
                · exact absurd hret hne
                · rw [hsaved] at hnone
                  cases hnone
                · exact hpc
              have hresumed := hruns.resumed (by rw [hsaved]; exact Option.some_ne_none _)
              rw [hret, doCallReturn_pc_stays, doCallReturn_pc_stays, pc_restored]
              exact BitVec.eq_of_toNat_eq (hresumed.trans hpc.symm)
            · exact doCallReturn_pc hsp hret _ _ _
          · exact ((restored_agree (hf.caller c hc) (Or.inr hr) s.cpu).doCallReturn _ _ _ _).2
  next => cases hs

/-- The regions, guest calls and returns of all handlers of a run are as they should be exactly when all
returns are proper. -/
theorem run_callbackLaw_iff (cpu : Cpu arch) (mem : GuestMemory ε) (ops : List (CallbackOp arch ε)) :
    CallbackLaw (initial cpu mem) ops ↔ ProperReturns (initial cpu mem) ops := by
  have hinv : ∀ {pre s}, (initial cpu mem).run pre = some s → Inv s :=
    fun hrun => (inv_initial cpu mem).run hrun
  constructor
  · intro h pre result s hpre hrun hin
    obtain ⟨f, rest, hcs, -⟩ := (hinv hrun).handler hin
    obtain ⟨s', hs'⟩ : ∃ s', s.step (.returnValue result) = some s' := by
      simp only [CallbackRun.step, hin, if_true]
      unfold CallbackRun.returnValue
      rw [hcs]
      exact ⟨_, rfl⟩
    exact ((hinv hrun).returnsAsCalled_iff hs').mp (h.returns pre result s s' hpre hrun hs')
  · intro h
    refine ⟨?_, ?_, ?_⟩
    · intro pre s _ hrun f hf
      exact ((hinv hrun).sound f hf).regions
    · intro pre call s₁ s₂ _ hrun hs f hf
      simp only [CallbackRun.step] at hs
      split at hs
      next hin =>
        obtain ⟨g, rest, hcs, -⟩ := (hinv hrun).handler hin
        rw [hcs] at hf
        cases hf
        exact (startGuestCallback_spec hcs ((hinv hrun).sound _ (hcs ▸ List.mem_cons_self)) hs).2.2
      next => cases hs
    · intro pre result s₁ s₂ hpre hrun hs
      have hin : s₁.inHandler = true := by
        simp only [CallbackRun.step] at hs
        split at hs
        next hin => exact hin
        next => cases hs
      exact ((hinv hrun).returnsAsCalled_iff hs).mpr (h pre result s₁ hpre hrun hin)

/-- A stack at `0x10800` of zeros, at the call of an API. -/
def zeroStack : GuestMemory RegionEngine where
  mgr := (MemoryManager.memMap plainEnv (MemoryManager.init emptyEngine)
    { size := 0x1000, base := some 0x10000 }).2
  bytes := fun _ => 0

def apiCpu (pc : BitVec 32) : Cpu .x86
  | .sp => 0x10800
  | .pc => pc
  | _ => 0

/-- The handler of an API whose return address is 0 makes one guest call. -/
def zeroReturn : List (CallbackOp .x86 RegionEngine) :=
  [.startApi 0 .cdecl, .guestCall ⟨0x401000, [1, 2], []⟩, .guest (apiCpu 0xFEEDF008) zeroStack,
    .callbackReturn, .returnValue none]

theorem run_not_callbackLaw : ¬ CallbackLaw (initial (apiCpu 0x77001000) zeroStack) zeroReturn := by
  intro h
  have hrun : ((initial (apiCpu 0x77001000) zeroStack).run (zeroReturn.take 4)).map (fun s =>
      (s.callbacks.head?.map fun f => (f.returnAddress, f.caller.map fun c => c .pc))) =
        some (some (0, some 0x77001000)) := by decide
  have hreturn : ((initial (apiCpu 0x77001000) zeroStack).run (zeroReturn.take 4)).bind (fun s =>
      (s.step (.returnValue none)).map fun s' => s'.cpu .pc) = some 0xFEEDF008 := by decide
  obtain ⟨s₁, hs₁, hframe⟩ := Option.map_eq_some_iff.mp hrun
  rw [hs₁] at hreturn
  obtain ⟨s₂, hs₂, hpc⟩ := Option.map_eq_some_iff.mp hreturn
  obtain ⟨f, hf, hfields⟩ := Option.map_eq_some_iff.mp hframe
  obtain ⟨hret, hcaller⟩ := Prod.mk.inj hfields
  obtain ⟨c, hc, hcpc⟩ := Option.map_eq_some_iff.mp hcaller
  have hsame := h.returns (zeroReturn.take 4) none s₁ s₂ (List.prefix_refl _) hs₁ hs₂ f hf c hc .pc
    (List.mem_cons_of_mem _ List.mem_cons_self)
  rw [hret, doCallReturn_pc_stays, hpc, hcpc] at hsame
  exact absurd hsame (by decide)

end CallbackRun

end Speakeasy
