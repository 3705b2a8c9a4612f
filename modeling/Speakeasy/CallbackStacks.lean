import Speakeasy.GuestCallbacks

namespace Speakeasy

section

open PageEngine

section

variable {arch : Arch} {cpu cpu' : Cpu arch}

namespace Cpu

@[simp] theorem regWrite_self (cpu : Cpu arch) (r : Reg) (value : Int) :
    cpu.regWrite r value r = BitVec.ofInt arch.bits value := if_pos rfl

theorem regWrite_other {r q : Reg} (h : r ≠ q) (value : Int) : cpu.regWrite q value r = cpu r := if_neg h

/-- Writing back what a register held. -/
theorem ofInt_regRead (cpu : Cpu arch) (r : Reg) : BitVec.ofInt arch.bits (cpu.regRead r) = cpu r := by
  unfold regRead
  rw [BitVec.ofInt_natCast]
  rw [BitVec.ofNat_toNat, BitVec.setWidth_eq]

theorem regWriteAll_other {values : List (Reg × Int)} {r : Reg} (h : ∀ v ∈ values, v.1 ≠ r) :
    cpu.regWriteAll values r = cpu r := by
  induction values generalizing cpu with
  | nil => rfl
  | cons v values ih =>
    show (cpu.regWrite v.1 v.2).regWriteAll values r = cpu r
    rw [ih fun u hu => h u (List.mem_cons_of_mem _ hu)]
    exact regWrite_other (h v List.mem_cons_self).symm _

/-- The registers that were saved are restored. -/
theorem regWriteAll_saved (caller : Cpu arch) {regs : List Reg} {r : Reg} (h : r ∈ regs) :
    cpu.regWriteAll (regs.map fun r => (r, (caller.regRead r : Int))) r = caller r := by
  induction regs generalizing cpu with
  | nil => cases h
  | cons q regs ih =>
    show (cpu.regWrite q (caller.regRead q)).regWriteAll _ r = caller r
    by_cases hr : r ∈ regs
    · exact ih hr
    · rw [regWriteAll_other]
      · have hq : r = q := (List.mem_cons.mp h).resolve_right hr
        rw [hq, regWrite_self, ofInt_regRead]
      · intro v hv
        obtain ⟨u, hu, hv⟩ := List.mem_map.mp hv
        rw [← hv]
        exact fun heq => hr (heq ▸ hu)

/-- The registers have the same stack pointer, and the same value in one register. -/
def Agree (r : Reg) (cpu cpu' : Cpu arch) : Prop := cpu .sp = cpu' .sp ∧ cpu r = cpu' r

theorem Agree.regWrite {r : Reg} (h : Agree r cpu cpu') (q : Reg) (value : Int) :
    Agree r (cpu.regWrite q value) (cpu'.regWrite q value) := by
  have hwrite : ∀ {p : Reg}, cpu p = cpu' p → cpu.regWrite q value p = cpu'.regWrite q value p := by
    intro p hp
    unfold Cpu.regWrite
    split
    · rfl
    · exact hp
  exact ⟨hwrite h.1, hwrite h.2⟩

theorem Agree.sp {r : Reg} (h : Agree r cpu cpu') : cpu.regRead .sp = cpu'.regRead .sp := by
  unfold regRead
  rw [h.1]

end Cpu

open Cpu

theorem Cpu.Agree.cleanStackArgs {r : Reg} (h : Agree r cpu cpu') (argc : Nat) :
    Agree r (cleanStackArgs cpu argc) (cleanStackArgs cpu' argc) := by
  unfold Speakeasy.cleanStackArgs
  cases arch with
  | x86 =>
    show Agree r (cpu.regWrite _ _) (cpu'.regWrite _ _)
    rw [h.sp]
    exact h.regWrite _ _
  | amd64 => exact h

theorem Cpu.Agree.finish {r : Reg} (h : Agree r cpu cpu') (argc : Nat) (retValue : Option Int)
    (conv : Option CallConv) : Agree r (cleanCallArgs (setReturnVal cpu retValue conv) argc conv)
      (cleanCallArgs (setReturnVal cpu' retValue conv) argc conv) := by
  have hvalue : Agree r (setReturnVal cpu retValue conv) (setReturnVal cpu' retValue conv) := by
    unfold setReturnVal
    cases retValue with
    | none => exact h
    | some value =>
      simp only
      split
      · split
        · exact h
        · exact h.regWrite _ _
      · exact h.regWrite _ _
  unfold cleanCallArgs
  split
  · exact hvalue
  · split
    · split
      · exact hvalue.cleanStackArgs _
      · exact hvalue
    · exact hvalue.cleanStackArgs _

theorem Cpu.Agree.doCallReturn {r : Reg} (h : Agree r cpu cpu') (argc retAddr : Nat)
    (retValue : Option Int) (conv : Option CallConv) :
    Agree r (doCallReturn cpu argc retAddr retValue conv) (doCallReturn cpu' argc retAddr retValue conv) := by
  unfold Speakeasy.doCallReturn
  apply Agree.finish
  unfold returnTo
  rw [h.sp]
  split
  · exact (h.regWrite _ _).regWrite _ _
  · exact h

/-- A return address decides the pc. -/
theorem doCallReturn_pc (hsp : cpu .sp = cpu' .sp) {retAddr : Nat} (hret : retAddr ≠ 0) (argc : Nat)
    (retValue : Option Int) (conv : Option CallConv) :
    doCallReturn cpu argc retAddr retValue conv .pc = doCallReturn cpu' argc retAddr retValue conv .pc := by
  have hagree : Agree .pc (returnTo cpu retAddr) (returnTo cpu' retAddr) := by
    unfold returnTo
    rw [if_pos hret, if_pos hret, Agree.sp (r := .sp) ⟨hsp, hsp⟩]
    have hwrite := Agree.regWrite (r := .sp) ⟨hsp, hsp⟩ .sp (cpu'.regRead .sp + arch.ptrSize : Int)
    refine ⟨?_, ?_⟩
    · exact (hwrite.regWrite .pc retAddr).1
    · rw [regWrite_self, regWrite_self]
  exact (hagree.finish argc retValue conv).2

/-- Without a return address the pc stays. -/
theorem doCallReturn_pc_stays (cpu : Cpu arch) (argc : Nat) (retValue : Option Int)
    (conv : Option CallConv) : doCallReturn cpu argc 0 retValue conv .pc = cpu .pc := by
  have hclean : ∀ (cpu : Cpu arch) argc, cleanStackArgs cpu argc .pc = cpu .pc := by
    intro cpu argc
    unfold cleanStackArgs
    cases arch with
    | x86 => exact regWrite_other (by decide) _
    | amd64 => rfl
  have hvalue : setReturnVal cpu retValue conv .pc = cpu .pc := by
    unfold setReturnVal
    cases retValue with
    | none => rfl
    | some value =>
      simp only
      split
      · split
        · rfl
        · exact regWrite_other (by decide) _
      · exact regWrite_other (by decide) _
  show cleanCallArgs (setReturnVal cpu retValue conv) argc conv .pc = cpu .pc
  unfold cleanCallArgs
  split
  · exact hvalue
  · split
    · split
      · rw [hclean, hvalue]
      · exact hvalue
    · rw [hclean, hvalue]

end

end

section

open PageEngine

theorem align16_mod (a : Int) : align16 a % 16 = 0 := by
  unfold align16
  omega

theorem align16_le (a : Int) : align16 a ≤ a := by
  unfold align16
  omega

section

variable {ε : Type} [PageEngine ε] {arch : Arch} {g g' : GuestMemory ε}

theorem writeAt_spec {a : Int} {data : List UInt8} (h : g.writeAt a data = some g') :
    0 ≤ a ∧ g'.bytes = g.bytes.writeBytes a.toNat data := by
  unfold GuestMemory.writeAt at h
  split at h
  next => cases h
  next ha =>
    refine ⟨by omega, ?_⟩
    unfold GuestMemory.memWrite at h
    split at h
    next =>
      cases h
      rfl
    next => cases h

/-- Two memories agree outside `[lo, hi)`. -/
def SameOutside (lo hi : Int) (g g' : GuestMemory ε) : Prop :=
  ∀ x : Nat, (x : Int) < lo ∨ hi ≤ x → g'.bytes x = g.bytes x

omit [PageEngine ε] in
theorem SameOutside.refl (lo hi : Int) (g : GuestMemory ε) : SameOutside lo hi g g := fun _ _ => rfl

omit [PageEngine ε] in
theorem SameOutside.widen {lo hi lo' hi' : Int} (h : SameOutside lo hi g g') (hlo : lo' ≤ lo)
    (hhi : hi ≤ hi') : SameOutside lo' hi' g g' := by
  intro x hx
  apply h x
  omega

omit [PageEngine ε] in
theorem SameOutside.trans {lo hi : Int} {g₁ g₂ g₃ : GuestMemory ε} (h : SameOutside lo hi g₁ g₂)
    (h' : SameOutside lo hi g₂ g₃) : SameOutside lo hi g₁ g₃ :=
  fun x hx => (h' x hx).trans (h x hx)

theorem pushWord_spec {sp sp' : Int} {word : Nat} (h : pushWord arch (sp, g) word = some (sp', g')) :
    sp' = sp - arch.ptrSize ∧ 0 ≤ sp' ∧ SameOutside sp' sp g g' := by
  unfold pushWord at h
  split at h
  next =>
    obtain ⟨mem, hwrite, heq⟩ := Option.map_eq_some_iff.mp h
    obtain ⟨hsp, hg⟩ := Prod.mk.inj heq
    obtain ⟨hpos, hbytes⟩ := writeAt_spec hwrite
    have hsp : sp' = sp - arch.ptrSize := hsp.symm
    rw [← hsp] at hpos hbytes
    refine ⟨hsp, hpos, ?_⟩
    intro x hx
    rw [← hg, hbytes]
    apply ByteMemory.writeBytes_outside
    rw [toBytes_length]
    omega
  next => cases h

theorem pushWords_spec {sp sp' : Int} {words : List Nat}
    (h : words.foldlM (pushWord arch) (sp, g) = some (sp', g')) :
    sp' = sp - arch.ptrSize * words.length ∧ SameOutside sp' sp g g' := by
  induction words generalizing sp g with
  | nil =>
    cases h
    exact ⟨by simp, SameOutside.refl _ _ _⟩
  | cons word words ih =>
    rw [List.foldlM_cons] at h
    obtain ⟨⟨mid, gmid⟩, hpush, hrest⟩ := Option.bind_eq_some_iff.mp h
    obtain ⟨hmid, -, hsame⟩ := pushWord_spec hpush
    obtain ⟨hsp, hsame'⟩ := ih hrest
    have hlen : (arch.ptrSize : Int) * (word :: words).length =
        arch.ptrSize * words.length + arch.ptrSize := by
      rw [List.length_cons, Int.natCast_succ, Int.mul_add, Int.mul_one]
    have hpos : (0 : Int) ≤ arch.ptrSize * words.length :=
      Int.mul_nonneg (Int.natCast_nonneg _) (Int.natCast_nonneg _)
    refine ⟨by omega, ?_⟩
    exact (hsame.widen (by omega) (by omega)).trans (hsame'.widen (by omega) (by omega))

/-- The bytes that a call takes on the stack: its stack arguments, the home space and the return
address. -/
def callSize (arch : Arch) (argc : Nat) : Nat :=
  arch.ptrSize * (argc - (argRegs arch .stdcall).length) + homeSpace arch true + arch.ptrSize

theorem setFuncArgs_spec {cpu cpu' : Cpu arch} {stackAddr : Int} {retAddr : Nat} {args : List Nat}
    (h : setFuncArgs cpu g stackAddr retAddr args .stdcall true = some (cpu', g')) :
    ∃ sp : Int, cpu' .sp = BitVec.ofInt arch.bits sp ∧ sp = stackAddr - callSize arch args.length ∧
      0 ≤ sp ∧ SameOutside sp stackAddr g g' := by
  unfold setFuncArgs at h
  obtain ⟨⟨mid, gmid⟩, hargs, h⟩ := Option.bind_eq_some_iff.mp h
  obtain ⟨⟨sp, gret⟩, hret, h⟩ := Option.map_eq_some_iff.mp h
  obtain ⟨hcpu, hg⟩ := Prod.mk.inj h
  obtain ⟨hmid, hsame⟩ := pushWords_spec hargs
  obtain ⟨hsp, hpos, hsame'⟩ := pushWord_spec hret
  rw [List.length_reverse, List.length_drop] at hmid
  have hsize : (callSize arch args.length : Int) =
      arch.ptrSize * ((args.length - (argRegs arch .stdcall).length : Nat) : Int) + homeSpace arch true +
        arch.ptrSize := by
    unfold callSize
    push_cast
    rfl
  refine ⟨sp, ?_, by omega, hpos, ?_⟩
  · rw [← hcpu]
    exact Cpu.regWrite_self _ _ _
  · rw [← hg]
    have hle : (0 : Int) ≤ arch.ptrSize * ((args.length - (argRegs arch .stdcall).length : Nat) : Int) :=
      Int.mul_nonneg (Int.natCast_nonneg _) (Int.natCast_nonneg _)
    exact (hsame.widen (by omega) (by omega)).trans (hsame'.widen (by omega) (by omega))

theorem callStackPointer_le (arch : Arch) (sp : Int) (argc : Nat) :
    CallbackRun.callStackPointer arch sp argc ≤ sp := by
  have := align16_le sp
  unfold CallbackRun.callStackPointer
  cases arch with
  | x86 => exact Int.le_refl _
  | amd64 =>
    simp only
    split
    · omega
    · exact this

/-- A Win64 callee starts with `rsp + 8` at a multiple of 16. -/
theorem callStackPointer_aligned (sp : Int) (argc : Nat) :
    (CallbackRun.callStackPointer .amd64 sp argc - callSize .amd64 argc + 8) % 16 = 0 := by
  have halign := align16_mod sp
  have hsize : (callSize .amd64 argc : Int) = 8 * ((argc - 4 : Nat) : Int) + 0x20 + 8 := by
    unfold callSize
    push_cast
    rfl
  unfold CallbackRun.callStackPointer
  rw [hsize]
  simp only
  split
  · omega
  · omega

end

end

section

open PageEngine

namespace CallbackFrame

variable {arch : Arch}

/-- The regions of `alloca` are aligned, apart, and below the stack pointer of the frame. -/
structure RegionsSound (f : CallbackFrame arch) : Prop where
  aligned : ∀ r ∈ f.regions, r.1 % 16 = 0
  below : ∀ r ∈ f.regions, r.1 + (r.2 : Int) ≤ f.stackPointer.toNat
  apart : f.regions.Pairwise fun r r' => r.1 + (r.2 : Int) ≤ r'.1 ∨ r'.1 + (r'.2 : Int) ≤ r.1

/-- The scratch space holds the regions, and the saved registers are those of the API call. -/
structure Sound (f : CallbackFrame arch) : Prop where
  regions : f.RegionsSound
  scratch_nonneg : 0 ≤ f.scratch
  scratch : ∀ r ∈ f.regions, f.stackPointer.toNat - f.scratch ≤ r.1
  caller : ∀ c ∈ f.caller, c .sp = f.stackPointer
  saved : ∀ values ∈ f.savedRegisters, ∀ c ∈ f.caller, values = CallbackRun.saveRegisters c

end CallbackFrame

namespace CallbackRun

variable {ε : Type} [PageEngine ε] {arch : Arch} {s s' : CallbackRun arch ε}

/-- The handler of the last frame has made no guest call, or was resumed by the return of one. -/
structure HandlerRuns (s : CallbackRun arch ε) (f : CallbackFrame arch) : Prop where
  fresh : f.savedRegisters = none → ∀ c ∈ f.caller, s.cpu = c
  resumed : f.savedRegisters ≠ none → s.cpu.regRead .pc = guestCallbackReturnAddr

structure Inv (s : CallbackRun arch ε) : Prop where
  sound : ∀ f ∈ s.callbacks, f.Sound
  waiting : ∀ f ∈ (if s.inHandler then s.callbacks.tail else s.callbacks), f.savedRegisters ≠ none
  running : s.inHandler = true → ∃ f ∈ s.callbacks.head?, HandlerRuns s f

/-- A guest call starts below the regions of its handler: it writes the stack from its stack pointer to
`top` only. -/
structure EntersBelow (s s' : CallbackRun arch ε) (f : CallbackFrame arch) (top : Int) : Prop where
  pointer : (s'.cpu.regRead .sp : Int) < top
  regions : ∀ r ∈ f.regions, top ≤ r.1
  frame : top ≤ f.stackPointer.toNat
  memory : SameOutside (s'.cpu.regRead .sp) top s.mem s'.mem
  aligned : arch = .amd64 → ((s'.cpu.regRead .sp : Int) + 8) % 16 = 0

theorem callSize_pos (arch : Arch) (argc : Nat) : 0 < callSize arch argc := by
  unfold callSize
  cases arch with
  | x86 => exact Nat.lt_of_lt_of_le (by decide : 0 < 4) (Nat.le_add_left _ _)
  | amd64 => exact Nat.lt_of_lt_of_le (by decide : 0 < 8) (Nat.le_add_left _ _)

theorem regRead_ofInt {cpu : Cpu arch} {r : Reg} {value : Int} (h : cpu r = BitVec.ofInt arch.bits value)
    (hpos : 0 ≤ value) (hlt : value < 2 ^ arch.bits) : (cpu.regRead r : Int) = value := by
  unfold Cpu.regRead
  rw [h, BitVec.toNat_ofInt]
  have hmod : value % ((2 ^ arch.bits : Nat) : Int) = value := by
    apply Int.emod_eq_of_lt hpos
    push_cast
    exact hlt
  rw [hmod]
  exact Int.toNat_of_nonneg hpos

/-- The call keeps the frame, apart from its saved registers. -/
theorem startGuestCallback_spec {f : CallbackFrame arch} {rest : List (CallbackFrame arch)}
    (hs : s.callbacks = f :: rest) (hf : f.Sound) {call : GuestCall}
    (h : s.startGuestCallback call = some s') :
    s'.inHandler = false ∧
      s'.callbacks = { f with savedRegisters := some (f.savedRegisters.getD (saveRegisters s.cpu)),
                              function := call.function } :: rest ∧
      ∃ top, EntersBelow s s' f top := by
  have hdef : s.startGuestCallback call =
      (setFuncArgs s.cpu s.mem (callStackPointer arch (f.stackPointer.toNat - f.scratch) call.args.length)
        guestCallbackReturnAddr call.args .stdcall true).map fun r =>
          { cpu := (r.1.regWrite .pc call.function).regWriteAll
              (call.registers.map fun register => (register.1.1, register.2))
            mem := r.2
            callbacks := { f with savedRegisters := some (f.savedRegisters.getD (saveRegisters s.cpu)),
                                  function := call.function } :: rest
            inHandler := false } := by
    unfold startGuestCallback
    rw [hs]
  rw [hdef] at h
  obtain ⟨⟨cpu, mem⟩, hargs, h⟩ := Option.map_eq_some_iff.mp h
  obtain ⟨sp, hsp, hsize, hpos, hsame⟩ := setFuncArgs_spec hargs
  have hle := callStackPointer_le arch (f.stackPointer.toNat - f.scratch) call.args.length
  have hscratch := hf.scratch_nonneg
  have hcall := callSize_pos arch call.args.length
  have hlt : (f.stackPointer.toNat : Int) < 2 ^ arch.bits := by
    have := f.stackPointer.isLt
    exact_mod_cast this
  cases h
  refine ⟨rfl, rfl, callStackPointer arch (f.stackPointer.toNat - f.scratch) call.args.length, ?_⟩
  -- The pc and the registers of the call are not the stack pointer.
  have hcpu : ((cpu.regWrite .pc call.function).regWriteAll
      (call.registers.map fun register => (register.1.1, register.2))) .sp = BitVec.ofInt arch.bits sp := by
    rw [Cpu.regWriteAll_other]
    · rw [Cpu.regWrite_other (by decide)]
      exact hsp
    · intro v hv
      obtain ⟨u, -, hu⟩ := List.mem_map.mp hv
      rw [← hu]
      exact u.1.2.1
  have hread := regRead_ofInt hcpu hpos (by omega)
  refine ⟨?_, ?_, by omega, ?_, ?_⟩
  · show ((Cpu.regRead _ .sp : Nat) : Int) < _
    rw [hread]
    omega
  · intro r hr
    have := hf.scratch r hr
    omega
  · show SameOutside (Cpu.regRead _ .sp : Nat) _ _ _
    rw [hread]
    exact hsame
  · intro harch
    show (((Cpu.regRead _ .sp : Nat) : Int) + 8) % 16 = 0
    rw [hread, hsize]
    subst harch
    exact callStackPointer_aligned _ _

end CallbackRun

end

end Speakeasy
