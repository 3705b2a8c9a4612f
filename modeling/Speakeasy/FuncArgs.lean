import Speakeasy.CallbackStacks

namespace Speakeasy

open PageEngine

section

variable {ε : Type} [PageEngine ε] {arch : Arch}

/-- The loop of `get_func_argv` over the stack arguments. -/
def readWords (arch : Arch) (g : GuestMemory ε) (sp : Nat) : Nat → Option (List Nat)
  | 0 => some []
  | nargs + 1 =>
    match g.memRead sp arch.ptrSize with
    | .error _ => none
    | .ok ptr => (readWords arch g (sp + arch.ptrSize) nargs).map (fromBytes ptr :: ·)

/-- The loop over doubles on the stack. -/
def readDoubles (g : GuestMemory ε) (sp : Nat) : Nat → Option (List Nat)
  | 0 => some []
  | argc + 1 =>
    match g.memRead sp 8 with
    | .error _ => none
    | .ok double => (readDoubles g (sp + 8) argc).map (fromBytes double :: ·)

/-- `get_func_argv`. The values of `xmm0` to `xmm3` are in `xmm`. -/
def getFuncArgv (cpu : Cpu arch) (xmm : List Nat) (g : GuestMemory ε) (callconv : CallConv) (argc : Nat) :
    Option (List Nat) :=
  if callconv = .float then
    match arch with
    | .x86 => readDoubles g (cpu.regRead .sp + arch.ptrSize) argc
    | .amd64 => some (((xmm.take 4).take argc).map (· % 2 ^ 64))
  else
    let argv := ((argRegs arch callconv).take argc).map cpu.regRead
    let sp := cpu.regRead .sp + homeSpace arch true
    (readWords arch g (sp + arch.ptrSize) (argc - argv.length)).map (argv ++ ·)

def getRetAddress (cpu : Cpu arch) (g : GuestMemory ε) : Option Nat :=
  match g.memRead (cpu.regRead .sp) arch.ptrSize with
  | .error _ => none
  | .ok ptr => some (fromBytes ptr)

/-! Words that were pushed are read back. -/

theorem ptrSize_bits (arch : Arch) : 256 ^ arch.ptrSize = 2 ^ arch.bits := by
  cases arch with
  | x86 => rfl
  | amd64 => rfl

/-- A write keeps the pages, and its bytes are read back. -/
theorem memRead_memWrite {g g' : GuestMemory ε} {a : Nat} {data : List UInt8}
    (h : (g.memWrite a data).toOption = some g') : g'.mgr = g.mgr ∧ g'.memRead a data.length = .ok data := by
  unfold GuestMemory.memWrite at h
  split at h
  next hmapped =>
    cases h
    refine ⟨rfl, ?_⟩
    have hread : GuestMemory.memRead { g with bytes := g.bytes.writeBytes a data } a data.length =
        .ok ((g.bytes.writeBytes a data).readBytes a data.length) := if_pos hmapped
    rw [hread, ByteMemory.readBytes_writeBytes_self]
  next => cases h

/-- A push keeps the pages, and its word is read at the new stack pointer. -/
theorem pushWord_read {g g' : GuestMemory ε} {sp sp' : Int} {word : Nat}
    (h : pushWord arch (sp, g) word = some (sp', g')) :
    g'.mgr = g.mgr ∧ word < 2 ^ arch.bits ∧
      ∃ ptr, g'.memRead sp'.toNat arch.ptrSize = .ok ptr ∧ fromBytes ptr = word := by
  unfold pushWord at h
  split at h
  next hword =>
    obtain ⟨mem, hwrite, heq⟩ := Option.map_eq_some_iff.mp h
    obtain ⟨hsp, hg⟩ := Prod.mk.inj heq
    subst hg
    unfold GuestMemory.writeAt at hwrite
    split at hwrite
    next => cases hwrite
    obtain ⟨hmgr, hread⟩ := memRead_memWrite hwrite
    rw [toBytes_length, hsp] at hread
    have hvalue := fromBytes_toBytes_of_lt (show word < 256 ^ arch.ptrSize by rw [ptrSize_bits]; exact hword)
    exact ⟨hmgr, hword, _, hread, hvalue⟩
  next => cases h

theorem memRead_congr {g g' : GuestMemory ε} (hmgr : g'.mgr = g.mgr) {a count : Nat}
    (h : ∀ x, a ≤ x → x < a + count → g'.bytes x = g.bytes x) : g'.memRead a count = g.memRead a count := by
  have hmapped : g'.RangeMapped a count ↔ g.RangeMapped a count := by
    unfold GuestMemory.RangeMapped
    rw [hmgr]
  unfold GuestMemory.memRead
  rw [ByteMemory.readBytes_congr h]
  exact if_congr hmapped rfl rfl

theorem readWords_congr {g g' : GuestMemory ε} (hmgr : g'.mgr = g.mgr) {a count : Nat}
    (h : ∀ x, a ≤ x → g'.bytes x = g.bytes x) : readWords arch g' a count = readWords arch g a count := by
  induction count generalizing a with
  | zero => rfl
  | succ count ih =>
    have hread : g'.memRead a arch.ptrSize = g.memRead a arch.ptrSize :=
      memRead_congr hmgr fun x hx _ => h x hx
    unfold readWords
    rw [hread, ih fun x hx => h x (by omega)]

theorem pushWords_read {g g' : GuestMemory ε} {sp sp' : Int} {words : List Nat}
    (h : words.reverse.foldlM (pushWord arch) (sp, g) = some (sp', g')) (hsp : 0 ≤ sp) :
    g'.mgr = g.mgr ∧ 0 ≤ sp' ∧ readWords arch g' sp'.toNat words.length = some words := by
  induction words generalizing sp' g' with
  | nil =>
    cases h
    exact ⟨rfl, hsp, rfl⟩
  | cons word words ih =>
    rw [List.reverse_cons, List.foldlM_append] at h
    obtain ⟨⟨mid, gmid⟩, hrest, hpush⟩ := Option.bind_eq_some_iff.mp h
    rw [List.foldlM_cons] at hpush
    obtain ⟨⟨last, glast⟩, hpush, hend⟩ := Option.bind_eq_some_iff.mp hpush
    cases hend
    obtain ⟨hmgr, hmid, hread⟩ := ih hrest
    obtain ⟨hmgr', _, ptr, hptr, hword⟩ := pushWord_read hpush
    obtain ⟨hsp', hpos, hsame⟩ := pushWord_spec hpush
    have hnext : sp'.toNat + arch.ptrSize = mid.toNat := by omega
    have hkeep : readWords arch g' mid.toNat words.length = readWords arch gmid mid.toNat words.length :=
      readWords_congr hmgr' fun x hx => hsame x (Or.inr (by omega))
    refine ⟨hmgr'.trans hmgr, hpos, ?_⟩
    rw [List.length_cons, readWords, hptr, hnext, hkeep, hread, ← hword]
    rfl

/-- The argument registers hold the first arguments. -/
theorem regWriteAll_zip {cpu : Cpu arch} {regs : List Reg} {args : List Nat} (hnodup : regs.Nodup)
    (hargs : ∀ a ∈ args, a < 2 ^ arch.bits) :
    (regs.take args.length).map (cpu.regWriteAll (regs.zip (args.map Int.ofNat))).regRead =
      args.take regs.length := by
  induction regs generalizing cpu args with
  | nil => simp
  | cons r regs ih =>
    cases args with
    | nil => rfl
    | cons a args =>
      obtain ⟨hr, hregs⟩ := List.nodup_cons.mp hnodup
      have hrest := @ih (cpu.regWrite r a) args hregs fun x hx => hargs x (List.mem_cons_of_mem _ hx)
      have hother : ∀ v ∈ regs.zip (args.map Int.ofNat), v.1 ≠ r :=
        fun v hv heq => hr (heq ▸ (List.of_mem_zip hv).1)
      have hfirst : ((cpu.regWrite r a).regWriteAll (regs.zip (args.map Int.ofNat))).regRead r = a := by
        unfold Cpu.regRead
        rw [Cpu.regWriteAll_other hother, Cpu.regWrite_self, BitVec.ofInt_natCast, BitVec.toNat_ofNat,
          Nat.mod_eq_of_lt (hargs a List.mem_cons_self)]
      rw [List.map_cons, List.zip_cons_cons, List.length_cons, List.take_succ_cons, List.map_cons]
      show _ :: (regs.take args.length).map
        ((cpu.regWrite r a).regWriteAll (regs.zip (args.map Int.ofNat))).regRead = _
      rw [hrest]
      exact congrArg (· :: args.take regs.length) hfirst

theorem argRegs_nodup (arch : Arch) (conv : CallConv) : (argRegs arch conv).Nodup := by
  cases arch with
  | x86 => cases conv <;> decide
  | amd64 => cases conv <;> decide

theorem argRegs_sp (arch : Arch) (conv : CallConv) : ∀ r ∈ argRegs arch conv, r ≠ .sp := by
  cases arch with
  | x86 => cases conv <;> decide
  | amd64 => cases conv <;> decide

/-- What a call leaves: its stack pointer, its return address, and its arguments in registers and above the
return address. -/
theorem setFuncArgs_read {cpu cpu' : Cpu arch} {g g' : GuestMemory ε} {stackAddr : Int} {retAddr : Nat}
    {args : List Nat} {conv : CallConv} (hstack : 0 ≤ stackAddr) (hargs : ∀ a ∈ args, a < 2 ^ arch.bits)
    (h : setFuncArgs cpu g stackAddr retAddr args conv true = some (cpu', g')) :
    ∃ sp : Int, 0 ≤ sp ∧ cpu' .sp = BitVec.ofInt arch.bits sp ∧
      sp = stackAddr - arch.ptrSize * ((args.length - (argRegs arch conv).length : Nat) : Int) -
        homeSpace arch true - arch.ptrSize ∧
      retAddr < 2 ^ arch.bits ∧
      (∃ ptr, g'.memRead sp.toNat arch.ptrSize = .ok ptr ∧ fromBytes ptr = retAddr) ∧
      readWords arch g' (sp.toNat + homeSpace arch true + arch.ptrSize)
        (args.length - (argRegs arch conv).length) = some (args.drop (argRegs arch conv).length) ∧
      ((argRegs arch conv).take args.length).map cpu'.regRead = args.take (argRegs arch conv).length ∧
      SameOutside sp stackAddr g g' := by
  unfold setFuncArgs at h
  obtain ⟨⟨mid, gmid⟩, hpushes, h⟩ := Option.bind_eq_some_iff.mp h
  obtain ⟨⟨sp, gret⟩, hpush, h⟩ := Option.map_eq_some_iff.mp h
  obtain ⟨hcpu, hg⟩ := Prod.mk.inj h
  subst hg
  obtain ⟨hmid, hsame⟩ := pushWords_spec hpushes
  obtain ⟨hmgr, hmidPos, hwords⟩ := pushWords_read hpushes hstack
  obtain ⟨hsp, hpos, hsame'⟩ := pushWord_spec hpush
  obtain ⟨hmgr', hret, hptr⟩ := pushWord_read hpush
  rw [List.length_reverse, List.length_drop] at hmid
  rw [List.length_drop] at hwords
  have hspReg : cpu' .sp = BitVec.ofInt arch.bits sp := by
    rw [← hcpu]
    exact Cpu.regWrite_self _ _ _
  have hkeep : readWords arch gret mid.toNat (args.length - (argRegs arch conv).length) =
      readWords arch gmid mid.toNat (args.length - (argRegs arch conv).length) :=
    readWords_congr hmgr' fun x hx => hsame' x (Or.inr (by omega))
  have hbase : sp.toNat + homeSpace arch true + arch.ptrSize = mid.toNat := by omega
  have hregs : ((argRegs arch conv).take args.length).map cpu'.regRead =
      args.take (argRegs arch conv).length := by
    rw [← @regWriteAll_zip _ cpu _ _ (argRegs_nodup arch conv) hargs, ← hcpu]
    refine List.map_congr_left fun r hr => ?_
    unfold Cpu.regRead
    rw [Cpu.regWrite_other (argRegs_sp arch conv r (List.mem_of_mem_take hr))]
  refine ⟨sp, hpos, hspReg, by omega, hret, hptr, ?_, hregs, ?_⟩
  · rw [hbase, hkeep]
    exact hwords
  · have hle : (0 : Int) ≤ arch.ptrSize * ((args.length - (argRegs arch conv).length : Nat) : Int) :=
      Int.mul_nonneg (Int.natCast_nonneg _) (Int.natCast_nonneg _)
    exact (hsame.widen (by omega) (by omega)).trans (hsame'.widen (by omega) (by omega))

theorem setReturnVal_other {cpu : Cpu arch} {r : Reg} (hax : r ≠ .ax) (hxmm : r ≠ .xmm0) (retValue : Option Int)
    (conv : Option CallConv) : setReturnVal cpu retValue conv r = cpu r := by
  unfold setReturnVal
  split
  next => rfl
  split
  next =>
    split
    next => rfl
    next => exact Cpu.regWrite_other hxmm _
  next => exact Cpu.regWrite_other hax _

/-- The stack pointer that a return leaves, before it is cut to a word. -/
def returnedSp (arch : Arch) (conv : CallConv) (sp : Int) (argc : Nat) : Int :=
  if arch = .x86 ∧ conv ≠ .cdecl then
    sp + arch.ptrSize + 4 * ((argc - (argRegs arch conv).length : Nat) : Int)
  else sp + arch.ptrSize

theorem regRead_of_fits {cpu : Cpu arch} {r : Reg} {value : Int} (h : cpu r = BitVec.ofInt arch.bits value)
    (hpos : 0 ≤ value) (hlt : value < 2 ^ arch.bits) : (cpu.regRead r : Int) = value := by
  have hpow : (0 : Int) < ((2 ^ arch.bits : Nat) : Int) := Int.natCast_pos.mpr (Nat.two_pow_pos _)
  have hcast : ((2 ^ arch.bits : Nat) : Int) = 2 ^ arch.bits := by push_cast; rfl
  unfold Cpu.regRead
  rw [h, BitVec.toNat_ofInt, Int.toNat_of_nonneg (Int.emod_nonneg _ (by omega)), hcast]
  exact Int.emod_eq_of_lt hpos hlt

theorem cleanStackArgs_x86 {cpu : Cpu .x86} {sp : Int} (hsp : (cpu.regRead .sp : Int) = sp) {argc : Nat}
    (hpos : 0 ≤ sp) (hlt : sp + 4 * argc < 2 ^ Arch.x86.bits) :
    cleanStackArgs cpu argc .pc = cpu .pc ∧ ((cleanStackArgs cpu argc).regRead .sp : Int) = sp + 4 * argc := by
  constructor
  · exact Cpu.regWrite_other (by decide) _
  · refine regRead_of_fits ?_ (Int.add_nonneg hpos (by omega)) hlt
    rw [← hsp]
    exact Cpu.regWrite_self _ _ _

theorem doCallReturn_registers {cpu : Cpu arch} {conv : CallConv} (hconv : conv ≠ .float) {retAddr : Nat}
    (hret : retAddr ≠ 0) (argc : Nat) (retValue : Option Int)
    (hfit : returnedSp arch conv (cpu.regRead .sp) argc < 2 ^ arch.bits) :
    doCallReturn cpu argc retAddr retValue (some conv) .pc = BitVec.ofInt arch.bits retAddr ∧
    ((doCallReturn cpu argc retAddr retValue (some conv)).regRead .sp : Int) =
      returnedSp arch conv (cpu.regRead .sp) argc := by
  have hreturn : returnTo cpu retAddr =
      (cpu.regWrite .sp (cpu.regRead .sp + arch.ptrSize)).regWrite .pc retAddr := if_pos hret
  have hpc : setReturnVal (returnTo cpu retAddr) retValue (some conv) .pc = BitVec.ofInt arch.bits retAddr := by
    rw [setReturnVal_other (by decide) (by decide), hreturn, Cpu.regWrite_self]
  have hspReg : setReturnVal (returnTo cpu retAddr) retValue (some conv) .sp =
      BitVec.ofInt arch.bits (cpu.regRead .sp + arch.ptrSize) := by
    rw [setReturnVal_other (by decide) (by decide), hreturn, Cpu.regWrite_other (by decide), Cpu.regWrite_self]
  have hle : (cpu.regRead .sp : Int) + arch.ptrSize ≤ returnedSp arch conv (cpu.regRead .sp) argc := by
    unfold returnedSp
    split
    next => omega
    next => omega
  have hsp := regRead_of_fits hspReg (by omega) (by omega)
  have hcdecl : cleanCallArgs (setReturnVal (returnTo cpu retAddr) retValue (some .cdecl)) argc (some .cdecl) =
      setReturnVal (returnTo cpu retAddr) retValue (some .cdecl) := rfl
  unfold doCallReturn
  cases arch with
  | amd64 =>
    have hsame : cleanCallArgs (setReturnVal (returnTo cpu retAddr) retValue (some conv)) argc (some conv) =
        setReturnVal (returnTo cpu retAddr) retValue (some conv) := by
      cases conv with
      | cdecl => rfl
      | stdcall => rfl
      | fastcall => rfl
      | float => rfl
    rw [hsame]
    exact ⟨hpc, hsp⟩
  | x86 =>
    cases conv with
    | cdecl => exact ⟨hpc, hsp⟩
    | float => exact absurd rfl hconv
    | stdcall =>
      obtain ⟨hcleanPc, hcleanSp⟩ := @cleanStackArgs_x86 _ _ hsp argc (by omega) hfit
      exact ⟨hcleanPc.trans hpc, hcleanSp⟩
    | fastcall =>
      by_cases hargc : 2 < argc
      · have hclean : cleanCallArgs (setReturnVal (returnTo cpu retAddr) retValue (some .fastcall)) argc
            (some .fastcall) =
            cleanStackArgs (setReturnVal (returnTo cpu retAddr) retValue (some .fastcall)) (argc - 2) := by
          rw [cleanCallArgs, if_neg (by decide), if_pos rfl, if_pos ⟨rfl, hargc⟩]
        obtain ⟨hcleanPc, hcleanSp⟩ := @cleanStackArgs_x86 _ _ hsp (argc - 2) (by omega) hfit
        rw [hclean]
        exact ⟨hcleanPc.trans hpc, hcleanSp⟩
      · have hclean : cleanCallArgs (setReturnVal (returnTo cpu retAddr) retValue (some .fastcall)) argc
            (some .fastcall) = setReturnVal (returnTo cpu retAddr) retValue (some .fastcall) := by
          rw [cleanCallArgs, if_neg (by decide), if_pos rfl, if_neg fun h => hargc h.2]
        have hnone : argc - 2 = 0 := by omega
        rw [hclean]
        refine ⟨hpc, hsp.trans ?_⟩
        show _ = _ + 4 * ((argc - 2 : Nat) : Int)
        rw [hnone]
        omega

/-- A call and its return: the callee reads the arguments and the return address, and the return leaves the
stack pointer where the convention says. No byte from the first stack pointer on is written. -/
theorem call_return_balance {cpu cpu' : Cpu arch} {g g' : GuestMemory ε} {stackAddr : Int} {retAddr : Nat}
    {args : List Nat} {conv : CallConv} (hconv : conv ≠ .float) (hstack : stackAddr < 2 ^ arch.bits)
    (hpos : 0 ≤ stackAddr) (hret : retAddr ≠ 0) (hargs : ∀ a ∈ args, a < 2 ^ arch.bits)
    (h : setFuncArgs cpu g stackAddr retAddr args conv true = some (cpu', g')) (xmm : List Nat)
    (retValue : Option Int) :
    getFuncArgv cpu' xmm g' conv args.length = some args ∧
    getRetAddress cpu' g' = some retAddr ∧
    (doCallReturn cpu' args.length retAddr retValue (some conv)).regRead .pc = retAddr ∧
    ((doCallReturn cpu' args.length retAddr retValue (some conv)).regRead .sp : Int) =
      (if arch = .x86 ∧ conv ≠ .cdecl then stackAddr else cpu'.regRead .sp + arch.ptrSize) ∧
    ∀ x : Nat, stackAddr ≤ x → g'.bytes x = g.bytes x := by
  obtain ⟨sp, hspPos, hspReg, hsp, hfits, ⟨ptr, hptr, hword⟩, hwords, hregs, hsame⟩ :=
    setFuncArgs_read hpos hargs h
  have hle : (0 : Int) ≤ arch.ptrSize * ((args.length - (argRegs arch conv).length : Nat) : Int) :=
    Int.mul_nonneg (Int.natCast_nonneg _) (Int.natCast_nonneg _)
  have hread := regRead_of_fits hspReg hspPos (by omega)
  have hnat : cpu'.regRead .sp = sp.toNat := by omega
  have hreturned : returnedSp arch conv (cpu'.regRead .sp) args.length =
      if arch = .x86 ∧ conv ≠ .cdecl then stackAddr else cpu'.regRead .sp + arch.ptrSize := by
    unfold returnedSp
    split
    next harch =>
      obtain ⟨rfl, _⟩ := harch
      rw [hread, hsp]
      show _ - 4 * ((args.length - (argRegs .x86 conv).length : Nat) : Int) - 0 - 4 + 4 +
        4 * ((args.length - (argRegs .x86 conv).length : Nat) : Int) = _
      omega
    next => rfl
  have hreturnedLt : returnedSp arch conv (cpu'.regRead .sp) args.length < 2 ^ arch.bits := by
    rw [hreturned]
    split
    next => exact hstack
    next => omega
  obtain ⟨hpc, hspAfter⟩ := doCallReturn_registers hconv hret args.length retValue hreturnedLt
  refine ⟨?_, ?_, ?_, hspAfter.trans hreturned, fun x hx => hsame x (Or.inr hx)⟩
  · have hcount : args.length - (args.take (argRegs arch conv).length).length =
        args.length - (argRegs arch conv).length := by
      rw [List.length_take]
      omega
    unfold getFuncArgv
    rw [if_neg hconv]
    simp only [hregs, hcount, hnat, hwords, Option.map_some, List.take_append_drop]
  · unfold getRetAddress
    rw [hnat, hptr, ← hword]
  · have hfit : (retAddr : Int) < 2 ^ arch.bits := by exact_mod_cast hfits
    have hvalue := regRead_of_fits hpc (Int.natCast_nonneg _) hfit
    omega

end

/-- A guest with one page of stack. -/
def stackPage : GuestMemory RegionEngine where
  mgr := MemoryManager.init ⟨[⟨0x1000, 0x1FFF, 3⟩], by decide, List.pairwise_singleton _ _⟩
  bytes _ := 0

theorem call_return_balance_fastcall : ∃ (cpu : Cpu .x86) (g : GuestMemory RegionEngine),
    setFuncArgs (fun _ => 0) stackPage 0x1800 0x401000 [1, 2, 3] .fastcall true = some (cpu, g) ∧
    getFuncArgv cpu [] g .fastcall 3 = some [1, 2, 3] ∧
    ((doCallReturn cpu 3 0x401000 none (some .fastcall)).regRead .sp : Int) = 0x1800 := by
  have hset : (setFuncArgs (fun _ => 0 : Cpu .x86) stackPage 0x1800 0x401000 [1, 2, 3] .fastcall true).isSome := by
    decide
  obtain ⟨⟨cpu, g⟩, h⟩ := Option.isSome_iff_exists.mp hset
  obtain ⟨hargv, _, _, hsp, _⟩ := call_return_balance (by decide) (by decide) (by decide) (by decide) (by decide)
    h [] none
  exact ⟨cpu, g, h, hargv, hsp⟩

end Speakeasy
