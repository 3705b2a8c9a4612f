import Speakeasy.MemoryManager

namespace Speakeasy

open PageEngine

def Arch.ptrSize : Arch → Nat
  | .x86 => 4
  | .amd64 => 8

theorem Arch.ptrSize_pos (arch : Arch) : 0 < arch.ptrSize := by
  cases arch with
  | x86 => decide
  | amd64 => decide

inductive Reg
  | ax | bx | cx | dx | si | di | bp | sp | r8 | r9 | r10 | r11 | r12 | r13 | r14 | r15 | pc | xmm0
deriving DecidableEq, Repr

abbrev Cpu (arch : Arch) := Reg → BitVec arch.bits

namespace Cpu

variable {arch : Arch}

def regRead (cpu : Cpu arch) (r : Reg) : Nat := (cpu r).toNat

def regWrite (cpu : Cpu arch) (r : Reg) (value : Int) : Cpu arch := fun r' =>
  if r' = r then BitVec.ofInt arch.bits value else cpu r'

def regWriteAll (cpu : Cpu arch) (values : List (Reg × Int)) : Cpu arch :=
  values.foldl (fun cpu value => cpu.regWrite value.1 value.2) cpu

end Cpu

def nonvolatile : Arch → List Reg
  | .x86 => [.bx, .bp, .si, .di]
  | .amd64 => [.bx, .bp, .si, .di, .r12, .r13, .r14, .r15]

def guestCallbackReturnAddr : Nat := 0xFEEDF008

inductive CallConv
  | cdecl | stdcall | fastcall | float
deriving DecidableEq, Repr

/-- `address & ~0xF`. -/
def align16 (address : Int) : Int := address - address % 16

section

variable {ε : Type} [PageEngine ε] {arch : Arch}

/-- Unicorn has no negative addresses. -/
def GuestMemory.writeAt (g : GuestMemory ε) (address : Int) (data : List UInt8) :
    Option (GuestMemory ε) :=
  if address < 0 then none else (g.memWrite address.toNat data).toOption

/-- The registers that hold the first arguments of a call. -/
def argRegs : Arch → CallConv → List Reg
  | .x86, .fastcall => [.cx, .dx]
  | .x86, _ => []
  | .amd64, _ => [.cx, .dx, .r8, .r9]

/-- `sp -= ptr_size`, and a write there. An integer that does not fit a word raises. -/
def pushWord (arch : Arch) (stack : Int × GuestMemory ε) (word : Nat) : Option (Int × GuestMemory ε) :=
  if word < 2 ^ arch.bits then
    let sp := stack.1 - arch.ptrSize
    (stack.2.writeAt sp (toBytes arch.ptrSize word)).map fun g => (sp, g)
  else none

def homeSpace (arch : Arch) (home : Bool) : Nat := if arch = .amd64 && home then 0x20 else 0

def setFuncArgs (cpu : Cpu arch) (g : GuestMemory ε) (stackAddr : Int) (retAddr : Nat) (args : List Nat)
    (conv : CallConv) (home : Bool) : Option (Cpu arch × GuestMemory ε) :=
  let regs := argRegs arch conv
  let cpu := cpu.regWriteAll (regs.zip (args.map Int.ofNat))
  ((args.drop regs.length).reverse.foldlM (pushWord arch) (stackAddr, g)).bind fun (sp, g) =>
    (pushWord arch (sp - homeSpace arch home, g) retAddr).map fun (sp, g) => (cpu.regWrite .sp sp, g)

def cleanStackArgs (cpu : Cpu arch) (argc : Nat) : Cpu arch :=
  match arch with
  | .x86 => cpu.regWrite .sp (cpu.regRead .sp + 4 * argc)
  | .amd64 => cpu

/-- An API that has no return address keeps the stack pointer and the pc. -/
def returnTo (cpu : Cpu arch) (retAddr : Nat) : Cpu arch :=
  if retAddr ≠ 0 then (cpu.regWrite .sp (cpu.regRead .sp + arch.ptrSize)).regWrite .pc retAddr else cpu

/-- A double that x86 returns goes to the x87 stack. -/
def setReturnVal (cpu : Cpu arch) (retValue : Option Int) (conv : Option CallConv) : Cpu arch :=
  match retValue with
  | none => cpu
  | some value =>
    if conv = some .float then
      if arch = .x86 then cpu else cpu.regWrite .xmm0 value
    else cpu.regWrite .ax value

def cleanCallArgs (cpu : Cpu arch) (argc : Nat) (conv : Option CallConv) : Cpu arch :=
  if conv = some .cdecl ∨ conv = some .float then cpu
  else if conv = some .fastcall then
    if arch = .x86 ∧ 2 < argc then cleanStackArgs cpu (argc - 2) else cpu
  else cleanStackArgs cpu argc

def doCallReturn (cpu : Cpu arch) (argc retAddr : Nat) (retValue : Option Int) (conv : Option CallConv) :
    Cpu arch :=
  cleanCallArgs (setReturnVal (returnTo cpu retAddr) retValue conv) argc conv

end

/-- `GuestCallbackFrame` with its handler. `caller` keeps the registers at the API call, if one started
the frame, and `regions` what `alloca` returned. -/
structure CallbackFrame (arch : Arch) where
  stackPointer : BitVec arch.bits
  returnAddress : Nat
  argc : Nat := 0
  convention : Option CallConv := none
  function : Nat := 0
  scratch : Int := 0
  savedRegisters : Option (List (Reg × Int)) := none
  caller : Option (Cpu arch)
  regions : List (Int × Nat) := []

/-- A register that a `GuestCall` sets. -/
abbrev CallReg := {r : Reg // r ≠ .sp ∧ r ≠ .pc}

structure GuestCall where
  function : Nat
  args : List Nat
  registers : List (CallReg × Int)

/-- The guest with the callback frames of the current run, the last one first. The generator of the last
frame runs when `inHandler` is set, and else guest code. -/
structure CallbackRun (arch : Arch) (ε : Type) where
  cpu : Cpu arch
  mem : GuestMemory ε
  callbacks : List (CallbackFrame arch)
  inHandler : Bool

inductive CallbackOp (arch : Arch) (ε : Type)
  /-- Guest code runs. -/
  | guest (cpu : Cpu arch) (mem : GuestMemory ε)
  | startApi (argc : Nat) (convention : CallConv)
  /-- The dispatch of a CPU exception, at the stack pointer of its context. -/
  | startDispatch (stackPointer : BitVec arch.bits)
  | alloca (data : List UInt8)
  | guestCall (call : GuestCall)
  | callbackReturn
  | returnValue (result : Option Int)
  /-- A `Resume` at a context. -/
  | resume (context : Cpu arch)

namespace CallbackRun

variable {ε : Type} [PageEngine ε] {arch : Arch}

def saveRegisters (cpu : Cpu arch) : List (Reg × Int) :=
  (nonvolatile arch).map fun r => (r, (cpu.regRead r : Int))

/-- The address that `start_guest_callback` gives to `set_func_args`. -/
def callStackPointer (arch : Arch) (sp : Int) (argc : Nat) : Int :=
  match arch with
  | .x86 => sp
  | .amd64 => if max (argc - 4) 0 % 2 = 1 then align16 sp - 8 else align16 sp

/-- `alloca`. Its write can raise, and then the handler can go on. -/
def alloca (s : CallbackRun arch ε) (data : List UInt8) : Option (Option Int × CallbackRun arch ε) :=
  match s.callbacks with
  | [] => none
  | frame :: rest =>
    let address := align16 (frame.stackPointer.toNat - frame.scratch - data.length)
    let frame := { frame with scratch := frame.stackPointer.toNat - address }
    match s.mem.writeAt address data with
    | none => some (none, { s with callbacks := frame :: rest })
    | some mem =>
      let frame := { frame with regions := (address, data.length) :: frame.regions }
      some (some address, { s with mem := mem, callbacks := frame :: rest })

/-- `start_guest_callback` for the call that the handler yields, and the registers of the call. A call that
raises ends the run. -/
def startGuestCallback (s : CallbackRun arch ε) (call : GuestCall) : Option (CallbackRun arch ε) :=
  match s.callbacks with
  | [] => none
  | frame :: rest =>
    let saved := frame.savedRegisters.getD (saveRegisters s.cpu)
    let frame := { frame with savedRegisters := some saved, function := call.function }
    let sp := callStackPointer arch (frame.stackPointer.toNat - frame.scratch) call.args.length
    (setFuncArgs s.cpu s.mem sp guestCallbackReturnAddr call.args .stdcall true).map fun (cpu, mem) =>
      { cpu := (cpu.regWrite .pc call.function).regWriteAll
          (call.registers.map fun register => (register.1.1, register.2))
        mem := mem
        callbacks := frame :: rest
        inHandler := false }

/-- The frames of nested callbacks that the guest left without a return are dropped. -/
def dropLeft (sp : Nat) : List (CallbackFrame arch) → List (CallbackFrame arch)
  | [] => []
  | [frame] => [frame]
  | frame :: rest => if frame.stackPointer.toNat < sp then dropLeft sp rest else frame :: rest

def dropAbandoned (sp : Nat) (callbacks : List (CallbackFrame arch)) : List (CallbackFrame arch) :=
  callbacks.dropWhile fun frame => frame.stackPointer.toNat ≤ sp

/-- The end of `_step` when the generator returned a value. -/
def returnValue (s : CallbackRun arch ε) (result : Option Int) : Option (CallbackRun arch ε) :=
  match s.callbacks with
  | [] => none
  | frame :: rest =>
    let cpu := s.cpu.regWrite .sp frame.stackPointer.toNat
    let cpu := cpu.regWriteAll (frame.savedRegisters.getD [])
    some { s with
      cpu := doCallReturn cpu frame.argc frame.returnAddress result frame.convention
      callbacks := rest
      inHandler := false }

/-- `dispatch_api_call` up to the start of the generator of the handler. -/
def startApi (s : CallbackRun arch ε) (argc : Nat) (convention : CallConv) :
    Option (CallbackRun arch ε) :=
  match s.mem.memRead (s.cpu.regRead .sp) arch.ptrSize with
  | .error _ => none
  | .ok word =>
    let frame : CallbackFrame arch :=
      { stackPointer := s.cpu .sp, returnAddress := fromBytes word, argc := argc,
        convention := some convention, caller := some s.cpu }
    some { s with callbacks := frame :: s.callbacks, inHandler := true }

/-- `dispatch_fault`. -/
def startDispatch (s : CallbackRun arch ε) (stackPointer : BitVec arch.bits) : CallbackRun arch ε :=
  let frame : CallbackFrame arch :=
    { stackPointer := stackPointer, returnAddress := 0, caller := none }
  { s with callbacks := frame :: dropAbandoned stackPointer.toNat s.callbacks, inHandler := true }

/-- `_continue_guest_callback`. -/
def callbackReturn (s : CallbackRun arch ε) : Option (CallbackRun arch ε) :=
  if s.cpu.regRead .pc = guestCallbackReturnAddr ∧ s.callbacks ≠ [] then
    some { s with callbacks := dropLeft (s.cpu.regRead .sp) s.callbacks, inHandler := true }
  else none

/-- The generator returned a `Resume`. -/
def resume (s : CallbackRun arch ε) (context : Cpu arch) : CallbackRun arch ε :=
  { s with
    cpu := context
    callbacks := dropAbandoned (context.regRead .sp) s.callbacks.tail
    inHandler := false }

def step (s : CallbackRun arch ε) : CallbackOp arch ε → Option (CallbackRun arch ε)
  | .guest cpu mem => if s.inHandler then none else some { s with cpu := cpu, mem := mem }
  | .startApi argc convention => if s.inHandler then none else s.startApi argc convention
  | .startDispatch stackPointer => if s.inHandler then none else some (s.startDispatch stackPointer)
  | .alloca data => if s.inHandler then (s.alloca data).map Prod.snd else none
  | .guestCall call => if s.inHandler then s.startGuestCallback call else none
  | .callbackReturn => if s.inHandler then none else s.callbackReturn
  | .returnValue result => if s.inHandler then s.returnValue result else none
  | .resume context => if s.inHandler then some (s.resume context) else none

def run (s : CallbackRun arch ε) (ops : List (CallbackOp arch ε)) : Option (CallbackRun arch ε) :=
  ops.foldlM step s

/-- Guest code runs, before any callback. -/
def initial (cpu : Cpu arch) (mem : GuestMemory ε) : CallbackRun arch ε :=
  { cpu := cpu, mem := mem, callbacks := [], inHandler := false }

end CallbackRun

end Speakeasy
