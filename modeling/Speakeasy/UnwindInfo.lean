import Speakeasy.LoggedReads
import Speakeasy.ByteMemory

namespace Speakeasy

/-- There are sixteen registers of each kind. -/
instance registerNumbers : NeZero 16 := ⟨by decide⟩

/-- What ends an unwind: a read that fails, unwind data that does not decode, or a chain that is too
long. -/
inductive UnwindFault
  | read (address : Int) (size : Nat)
  | decode
  | chain
deriving DecidableEq

/-- A `read(address, size)` that gives as many bytes as it is asked for, or fails. -/
structure GuestReader where
  read : Int → Nat → Option (List UInt8)
  length : ∀ address size bytes, read address size = some bytes → bytes.length = size

def GuestReader.get (reader : GuestReader) (range : Int × Nat) : Except UnwindFault (List UInt8) :=
  match reader.read range.1 range.2 with
  | some bytes => .ok bytes
  | none => .error (.read range.1 range.2)

/-- The functions of the unwinder, with the ranges that they read. -/
abbrev UnwindReads := LoggedReads (Int × Nat) (List UInt8) UnwindFault

def readMem (address : Int) (size : Nat) : UnwindReads (List UInt8) := LoggedReads.ask (address, size)

structure UnwindCode where
  prologOffset : Nat
  op : Nat
  info : Fin 16
  operand : Nat
deriving DecidableEq, Repr

structure UnwindInfo where
  flags : Nat
  prologSize : Nat
  frameReg : Fin 16
  frameOffset : Nat
  codes : List UnwindCode
  trailer : Int
deriving DecidableEq, Repr

def uwopPushNonvol : Nat := 0
def uwopAllocLarge : Nat := 1
def uwopAllocSmall : Nat := 2
def uwopSetFpreg : Nat := 3
def uwopSaveNonvol : Nat := 4
def uwopSaveNonvolFar : Nat := 5
def uwopSaveXmm128 : Nat := 8
def uwopSaveXmm128Far : Nat := 9
def uwopPushMachframe : Nat := 10

/-- `_slots`: the number of 16-bit slots of an unwind code. -/
def slots (op : Nat) (info : Fin 16) : Nat :=
  if op = uwopAllocLarge then (if info = 0 then 2 else 3)
  else if op = uwopSaveNonvol then 2
  else if op = uwopSaveNonvolFar then 3
  else if op = uwopSaveXmm128 then 2
  else if op = uwopSaveXmm128Far then 3
  else 1

def lowNibble (b : UInt8) : Fin 16 := ⟨b.toNat % 16, Nat.mod_lt _ (by decide)⟩

def highNibble (b : UInt8) : Fin 16 := ⟨b.toNat / 16, by have := b.toNat_lt; omega⟩

/-- The loop of `read_unwind_info` from slot `i`. It is `none` when an index is out of range, or when it
needs more than `fuel` rounds. -/
def decodeCodes (raw : List UInt8) (count : Nat) : Nat → Nat → Option (List UnwindCode)
  | 0, _ => none
  | fuel + 1, i =>
    if i < count then do
      let opInfo ← raw[2 * i + 1]?
      let op := (lowNibble opInfo).val
      let info := highNibble opInfo
      let n := slots op info
      let prologOffset ← raw[2 * i]?
      let operand := fromBytes ((raw.take (2 * (i + n))).drop (2 * i + 2))
      let codes ← decodeCodes raw count fuel (i + n)
      return ⟨prologOffset.toNat, op, info, operand⟩ :: codes
    else some []

def readUnwindInfo (address : Int) : UnwindReads UnwindInfo := do
  match ← readMem address 4 with
  | [versionFlags, prologSize, count, frame] =>
    let count := count.toNat
    let raw ← readMem (address + 4) (2 * count)
    match decodeCodes raw count (count + 1) 0 with
    | none => LoggedReads.fail .decode
    | some codes =>
      let trailer := address + 4 + 2 * ((count + 1) / 2 * 2 : Nat)
      return ⟨versionFlags.toNat / 8, prologSize.toNat, lowNibble frame, (highNibble frame).val, codes,
        trailer⟩
  | _ => LoggedReads.fail .decode

section

/-- The registers of a `CONTEXT64` that an unwind changes. -/
structure Context64 where
  gpr : Fin 16 → UInt64
  xmm : Fin 16 → UInt64 × UInt64
  rip : UInt64

/-- The number of `Rsp` in `GPRS`. -/
def rspIndex : Fin 16 := 4

namespace Context64

variable (ctx : Context64)

def rsp : UInt64 := ctx.gpr rspIndex

def setGpr (reg : Fin 16) (value : UInt64) : Context64 :=
  { ctx with gpr := fun r => if r = reg then value else ctx.gpr r }

def setRsp (value : UInt64) : Context64 := ctx.setGpr rspIndex value

def setXmm (reg : Fin 16) (value : UInt64 × UInt64) : Context64 :=
  { ctx with xmm := fun r => if r = reg then value else ctx.xmm r }

def setRip (value : UInt64) : Context64 := { ctx with rip := value }

end Context64

structure RuntimeFunction where
  imageBase : Int
  address : Int
  beginRva : UInt32
  endRva : UInt32
  unwindInfo : UInt32
deriving DecidableEq

structure FrameInfo where
  establisherFrame : Int
  handler : Int
  handlerData : Int
deriving DecidableEq

def readU32 (address : Int) : UnwindReads UInt32 := do
  return UInt32.ofNat (fromBytes (← readMem address 4))

def readU64 (address : Int) : UnwindReads UInt64 := do
  return UInt64.ofNat (fromBytes (← readMem address 8))

def readRuntimeFunction (imageBase address : Int) : UnwindReads RuntimeFunction := do
  let bytes ← readMem address 12
  let word (i : Nat) : UInt32 := UInt32.ofNat (fromBytes ((bytes.drop (4 * i)).take 4))
  return ⟨imageBase, address, word 0, word 1, word 2⟩

def flagChainInfo : Nat := 4

def maxChain : Nat := 32

/-- `_prolog_offset`. -/
def prologOffset (fn : RuntimeFunction) (pc : Int) : Nat :=
  ((pc - fn.imageBase - fn.beginRva.toNat) % 2 ^ 32).toNat

/-- `_establisher_frame`. -/
def establisherFrame (info : UnwindInfo) (offset : Nat) (ctx : Context64) : Int :=
  let frameSet := offset ≥ info.prologSize ∨ info.flags &&& flagChainInfo ≠ 0 ∨
    info.codes.any fun c => c.op = uwopSetFpreg ∧ c.prologOffset ≤ offset
  if info.frameReg ≠ 0 ∧ frameSet then (ctx.gpr info.frameReg).toNat - 16 * info.frameOffset
  else ctx.rsp.toNat

structure UnwindState where
  ctx : Context64
  machineFrame : Bool

/-- One code of the loop of `virtual_unwind`, whose offset is not behind `pc`. -/
def applyCode (info : UnwindInfo) (frame : Int) (c : UnwindCode) (s : UnwindState) :
    UnwindReads UnwindState :=
  let ctx := s.ctx
  if c.op = uwopPushNonvol then do
    let ctx := ctx.setGpr c.info (← readU64 ctx.rsp.toNat)
    return { s with ctx := ctx.setRsp (ctx.rsp + 8) }
  else if c.op = uwopAllocLarge then
    let size := if c.info ≠ 0 then c.operand else c.operand * 8
    return { s with ctx := ctx.setRsp (ctx.rsp + UInt64.ofNat size) }
  else if c.op = uwopAllocSmall then
    return { s with ctx := ctx.setRsp (ctx.rsp + UInt64.ofNat (c.info.val * 8 + 8)) }
  else if c.op = uwopSetFpreg then
    return { s with ctx := ctx.setRsp (ctx.gpr info.frameReg - UInt64.ofNat (16 * info.frameOffset)) }
  else if c.op = uwopSaveNonvol then do
    return { s with ctx := ctx.setGpr c.info (← readU64 (frame + c.operand * 8)) }
  else if c.op = uwopSaveNonvolFar then do
    return { s with ctx := ctx.setGpr c.info (← readU64 (frame + c.operand)) }
  else if c.op = uwopSaveXmm128 ∨ c.op = uwopSaveXmm128Far then do
    let scale := if c.op = uwopSaveXmm128 then 16 else 1
    let bytes ← readMem (frame + c.operand * scale) 16
    let low := UInt64.ofNat (fromBytes (bytes.take 8))
    let high := UInt64.ofNat (fromBytes (bytes.drop 8))
    return { s with ctx := ctx.setXmm c.info (low, high) }
  else if c.op = uwopPushMachframe then do
    let sp : Int := ctx.rsp.toNat + if c.info ≠ 0 then 8 else 0
    let rip ← readU64 sp
    let rsp ← readU64 (sp + 24)
    return ⟨(ctx.setRip rip).setRsp rsp, true⟩
  else return s

def applyCodes (offset : Nat) (info : UnwindInfo) (frame : Int) :
    List UnwindCode → UnwindState → UnwindReads UnwindState
  | [], s => return s
  | c :: codes, s =>
    if c.prologOffset > offset then applyCodes offset info frame codes s
    else do
      let s ← applyCode info frame c s
      applyCodes offset info frame codes s

/-- The rounds of the loop over the chain. After the last one the chain is too long. -/
def unwindChain (base pc frame : Int) :
    Nat → RuntimeFunction → UnwindInfo → UnwindState →
      UnwindReads (RuntimeFunction × UnwindInfo × UnwindState)
  | 0, _, _, _ => LoggedReads.fail .chain
  | rounds + 1, fn, info, s => do
    let s ← applyCodes (prologOffset fn pc) info frame info.codes s
    if info.flags &&& flagChainInfo = 0 then return (fn, info, s)
    else do
      let fn ← readRuntimeFunction base info.trailer
      let info ← readUnwindInfo (base + fn.unwindInfo.toNat)
      unwindChain base pc frame rounds fn info s

def unwindLeaf (ctx : Context64) : UnwindReads Context64 := do
  let ctx := ctx.setRip (← readU64 ctx.rsp.toNat)
  return ctx.setRsp (ctx.rsp + 8)

/-- The handler of a record and the address of its data, when the frame has one. -/
def readHandler (base pc : Int) (handlerType : Nat) (fn : RuntimeFunction) (info : UnwindInfo) :
    UnwindReads (Int × Int) :=
  if info.flags &&& handlerType ≠ 0 ∧ prologOffset fn pc ≥ info.prologSize then do
    return (base + (← readU32 info.trailer).toNat, info.trailer + 4)
  else return (0, 0)

def virtualUnwind (fn : RuntimeFunction) (pc : Int) (ctx : Context64) (handlerType : Nat) :
    UnwindReads (Context64 × FrameInfo) := do
  let base := fn.imageBase
  let info ← readUnwindInfo (base + fn.unwindInfo.toNat)
  let frame := establisherFrame info (prologOffset fn pc) ctx
  let (fn, info, s) ← unwindChain base pc frame maxChain fn info ⟨ctx, false⟩
  let (handler, handlerData) ← readHandler base pc handlerType fn info
  let ctx ← if s.machineFrame then pure s.ctx else unwindLeaf s.ctx
  return (ctx, ⟨frame, handler, handlerData⟩)

end

end Speakeasy
