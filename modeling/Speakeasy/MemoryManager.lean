import Speakeasy.PageEngine
import Mathlib.Data.List.Dedup
import Mathlib.Data.List.Infix
import Speakeasy.ByteMemory

namespace Speakeasy

section

open PageEngine

/-- The code points of a Python `str`. -/
abbrev PyStr := List Char

instance : LawfulBEq PyStr := inferInstanceAs (LawfulBEq (List Char))

def permMemNone : Nat := 0
def permMemExec : Nat := 0x10
def permMemRead : Nat := 0x02
def permMemWrite : Nat := 0x04
def permMemRw : Nat := permMemRead ||| permMemWrite
def permMemRx : Nat := permMemRead ||| permMemExec
def permMemRwx : Nat := permMemRead ||| permMemWrite ||| permMemExec

def ucProtNone : Nat := 0
def ucProtRead : Nat := 1
def ucProtWrite : Nat := 2
def ucProtExec : Nat := 4
def ucProtAll : Nat := 7

/-- The `perms` dictionary of `EmuEngine`, in its order. -/
def enginePerms : List (Nat × Nat) :=
  [(permMemNone, ucProtNone), (permMemExec, ucProtExec), (permMemRead, ucProtRead),
    (permMemWrite, ucProtWrite), (permMemRw, ucProtRead ||| ucProtWrite),
    (permMemRx, ucProtRead ||| ucProtExec),
    (permMemWrite ||| permMemExec, ucProtWrite ||| ucProtExec), (permMemRwx, ucProtAll)]

/-- `self.perms.get(perms, uc.UC_PROT_ALL)`. -/
def ucPerms (perms : Nat) : Nat := (enginePerms.lookup perms).getD ucProtAll

namespace EmuEngine

variable {ε : Type} [PageEngine ε]

def memMap (e : ε) (base size perms : Nat) : Except UcError ε :=
  PageEngine.memMap e base size (ucPerms perms)

def memUnmap (e : ε) (addr size : Nat) : Except UcError ε := PageEngine.memUnmap e addr size

def memProtect (e : ε) (addr size perms : Nat) : Except UcError ε :=
  PageEngine.memProtect e addr size (ucPerms perms)

end EmuEngine

structure MemMap where
  base : Nat
  size : Nat
  tag : Option PyStr
  prot : Option Nat
  flags : Nat
  shared : Bool
  free : Bool
  process : Option Nat
  blockBase : Nat
  blockSize : Nat
deriving DecidableEq, Repr

/-- The tag that `MemMap.__init__` keeps: the base is part of it, and the characters that a
report path cannot have are replaced. -/
def memMapTag (base : Nat) (tag : Option PyStr) : Option PyStr :=
  match tag with
  | none => none
  | some [] => some []
  | some t =>
    let baseAddrTag := ".0x".toList ++ Nat.toDigits 16 base
    let t := if baseAddrTag <:+: t then t else t ++ baseAddrTag
    some (t.map fun c => if c ∈ "\\?[]:]".toList then '_' else c)

def MemMap.init (base size : Nat) (tag : Option PyStr) (prot : Option Nat) (flags : Nat)
    (blockBase blockSize : Nat) (shared : Bool) (process : Option Nat) : MemMap where
  base := base
  size := size
  tag := memMapTag base tag
  prot := prot
  flags := flags
  shared := shared
  free := false
  process := process
  blockBase := blockBase
  blockSize := blockSize

/-- `m.base <= address <= (m.base + m.size) - 1`. -/
def MemMap.Covers (m : MemMap) (a : Nat) : Prop := m.base ≤ a ∧ a < m.base + m.size

instance (m : MemMap) (a : Nat) : Decidable (m.Covers a) := inferInstanceAs (Decidable (_ ∧ _))

def allocationGranularity : Nat := 0x10000

/-- What the class that inherits `MemoryManager` and the config give. The Windows emulator keeps a
range `[EMU_RESERVED, EMU_RESERVED_END)` out of every search. -/
structure MemEnv where
  addressLimit : Option Nat
  emuReserved : Option (Nat × Nat)
  keepMemoryOnFree : Bool
  currentProcess : Option Nat

structure MemoryManager (ε : Type) where
  maps : List MemMap
  memReserves : List MemMap
  blockBase : Nat
  blockSize : Nat
  blockOffset : Nat
  allocBase : Nat
  emuEng : ε

inductive MemError
  | outOfMemory
  | uc (e : UcError)
deriving DecidableEq, Repr

structure MapArgs where
  size : Nat
  base : Option Nat := none
  perms : Nat := permMemRwx
  tag : Option PyStr := none
  flags : Nat := 0
  shared : Bool := false
  process : Option Nat := none

structure ReserveArgs where
  size : Nat
  base : Option Nat := none
  perms : Option Nat := none
  tag : Option PyStr := none
  flags : Nat := 0
  shared : Bool := false

namespace MemoryManager

variable {ε : Type} [PageEngine ε]

def init (e : ε) : MemoryManager ε where
  maps := []
  memReserves := []
  blockBase := 0
  blockSize := 0
  blockOffset := 0
  allocBase := allocationGranularity
  emuEng := e

def getMemRegions (s : MemoryManager ε) : List Region := memRegions s.emuEng

def getAddressMap (s : MemoryManager ε) (address : Nat) : Option MemMap :=
  s.maps.find? (fun m => decide (m.Covers address))

def getReserveMap (s : MemoryManager ε) (address : Nat) : Option MemMap :=
  s.memReserves.find? (fun m => decide (m.Covers address))

/-- The size of a range in whole pages, at least one. -/
def pageTotal (size : Nat) : Nat :=
  if size < pageSize then pageSize
  else if size % pageSize ≠ 0 then size + (pageSize - size % pageSize)
  else size

/-- The pages that `get_valid_ranges` steps over, sorted and without duplicates. -/
def usedPages (s : MemoryManager ε) : List Nat :=
  ((s.getMemRegions.flatMap fun m => pageSteps m.first m.last) ++
    (s.memReserves.flatMap fun r => pageSteps r.base (r.base + r.size))).dedup.insertionSort (· ≤ ·)

/-- The loop of `get_valid_ranges` over the used pages. -/
def skipPages (total : Nat) : List Nat → Nat → Nat
  | [], base => base
  | page :: rest, base =>
    if base + total ≤ page then base
    else if base ≤ page then skipPages total rest (page + pageSize)
    else skipPages total rest base

/-- `MemoryManager.get_valid_ranges`. -/
def firstValidRange (env : MemEnv) (s : MemoryManager ε) (size : Nat) (addr : Option Nat) :
    Except MemError (Nat × Nat) :=
  let total := pageTotal size
  let addr := addr.getD s.allocBase
  let base := skipPages total s.usedPages (addr - addr % pageSize)
  match env.addressLimit with
  | some limit =>
    if addr < limit ∧ limit < base + total then .error .outOfMemory else .ok (base, total)
  | none => .ok (base, total)

/-- `get_valid_ranges` as `self` has it: `WindowsEmulator` searches again past its reserved range. -/
def getValidRanges (env : MemEnv) (s : MemoryManager ε) (size : Nat) (addr : Option Nat) :
    Except MemError (Nat × Nat) :=
  match firstValidRange env s size addr, env.emuReserved with
  | .ok (base, total), some (reserved, reservedEnd) =>
    if base < reservedEnd ∧ reserved < base + total then
      firstValidRange env s size (some reservedEnd)
    else .ok (base, total)
  | r, _ => r

/-- Cut an allocation of `size` bytes off the shared page block at its cursor. -/
def takeFromBlock (s : MemoryManager ε) (a : MapArgs) (size : Nat) (process : Option Nat) :
    Except MemError Nat × MemoryManager ε :=
  let base := s.blockBase + s.blockOffset
  let mm := MemMap.init base size a.tag (some a.perms) a.flags s.blockBase s.blockSize a.shared process
  (.ok base, { s with blockOffset := s.blockOffset + size, maps := s.maps ++ [mm] })

/-- `mem_map` for a size below a page and no base. -/
def memMapSmall (env : MemEnv) (s : MemoryManager ε) (a : MapArgs) (process : Option Nat) :
    Except MemError Nat × MemoryManager ε :=
  let addr := s.blockBase + s.blockOffset
  let size := a.size + (0x10 - a.size % 0x10)
  if s.blockBase = 0 ∨ s.blockBase + pageSize < addr + size then
    match getValidRanges env s pageSize none with
    | .error e => (.error e, s)
    | .ok (base, total) =>
      -- The cursor moves to the new block before the engine maps it.
      let s := { s with blockBase := base, blockSize := total }
      match EmuEngine.memMap s.emuEng s.blockBase s.blockSize permMemRwx with
      | .error e => (.error (.uc e), s)
      | .ok eng => takeFromBlock { s with emuEng := eng, blockOffset := 0 } a size process
  else takeFromBlock s a size process

/-- `mem_map` for a whole page range. -/
def memMapLarge (env : MemEnv) (s : MemoryManager ε) (a : MapArgs) (process : Option Nat) :
    Except MemError Nat × MemoryManager ε :=
  match getValidRanges env s a.size a.base with
  | .error e => (.error e, s)
  | .ok (base, size) =>
    let blockSize := if size > s.blockSize then size else s.blockSize
    let mm := MemMap.init base size a.tag (some a.perms) a.flags base blockSize a.shared process
    match EmuEngine.memMap s.emuEng base size a.perms with
    | .error e => (.error (.uc e), s)
    | .ok eng => (.ok base, { s with emuEng := eng, maps := s.maps ++ [mm] })

/-- The process that `mem_map` gives an allocation. -/
def mapProcess (env : MemEnv) (a : MapArgs) : Option Nat :=
  match a.process, a.tag with
  | none, some t => if t ≠ [] ∧ ¬"emu".toList <+: t then env.currentProcess else none
  | p, _ => p

def memMap (env : MemEnv) (s : MemoryManager ε) (a : MapArgs) :
    Except MemError Nat × MemoryManager ε :=
  if a.base = none ∧ a.size < pageSize ∧ a.size % pageSize ≠ 0 then
    memMapSmall env s a (mapProcess env a)
  else memMapLarge env s a (mapProcess env a)

/-- Set `free` on the first allocation that holds an address. -/
def setFree (a : Nat) : List MemMap → List MemMap
  | [] => []
  | m :: ms => if m.Covers a then { m with free := true } :: ms else m :: setFree a ms

/-- `for m in ml: self.maps.remove(m)`, where equal allocations have equal bases. -/
def removeMaps (maps ml : List MemMap) : List MemMap :=
  ml.foldl (fun ms m => ms.eraseP (fun x => x.base == m.base)) maps

def memFree (env : MemEnv) (s : MemoryManager ε) (base : Nat) :
    Except MemError Unit × MemoryManager ε :=
  match s.getAddressMap base with
  | none => (.ok (), s)
  | some mm =>
    let s := { s with maps := setFree base s.maps }
    if env.keepMemoryOnFree then (.ok (), s)
    else
      let ml := s.maps.filter (fun m => m.blockBase == mm.blockBase)
      if ml.all MemMap.free then
        let s := { s with blockBase := 0 }
        match EmuEngine.memUnmap s.emuEng mm.blockBase mm.blockSize with
        | .error e => (.error (.uc e), s)
        | .ok eng => (.ok (), { s with emuEng := eng, maps := removeMaps s.maps ml })
      else (.ok (), s)

def memReserve (env : MemEnv) (s : MemoryManager ε) (a : ReserveArgs) :
    Except MemError Nat × MemoryManager ε :=
  match (match a.base with
    | none => getValidRanges env s a.size none
    | some base => .ok (base, a.size)) with
  | .error e => (.error e, s)
  | .ok (base, size) =>
    let mm := MemMap.init base size a.tag a.perms a.flags base s.blockSize a.shared none
    (.ok base, { s with memReserves := s.memReserves ++ [mm] })

def memUnreserve (s : MemoryManager ε) (base : Nat) : MemoryManager ε :=
  { s with memReserves := s.memReserves.filter (fun r => r.base != base) }

def memMapReserve (env : MemEnv) (s : MemoryManager ε) (mappedBase : Nat) :
    Except MemError (Option Nat) × MemoryManager ε :=
  match s.memReserves.find? (fun r => mappedBase == r.base) with
  | none => (.ok none, s)
  | some r =>
    let s := { s with memReserves := s.memReserves.eraseP (fun x => x.base == r.base) }
    let (res, s) := memMap env s
      { size := r.size, base := some r.base, perms := r.prot.getD permMemRwx, tag := r.tag }
    (res.map some, s)

/-- `allocations_from` on entry. The caller keeps the previous base. -/
def enterAllocationsFrom (s : MemoryManager ε) (base : Nat) : MemoryManager ε :=
  { s with allocBase := base, blockBase := 0, blockOffset := 0 }

/-- `allocations_from` on exit. -/
def leaveAllocationsFrom (s : MemoryManager ε) (previous : Nat) : MemoryManager ε :=
  { s with allocBase := previous, blockBase := 0, blockOffset := 0 }

end MemoryManager

end

section

open PageEngine

inductive Arch
  | x86
  | amd64
deriving DecidableEq, Repr

def Arch.bits : Arch → Nat
  | .x86 => 32
  | .amd64 => 64

/-- The pages and the bytes of the guest. -/
structure GuestMemory (ε : Type) where
  mgr : MemoryManager ε
  bytes : ByteMemory

namespace GuestMemory

variable {ε : Type} [PageEngine ε]

def RangeMapped (g : GuestMemory ε) (address size : Nat) : Prop :=
  ∀ i < size, Mapped g.mgr.emuEng (address + i)

instance (g : GuestMemory ε) (address size : Nat) : Decidable (g.RangeMapped address size) :=
  inferInstanceAs (Decidable (∀ i < size, _))

def memWrite (g : GuestMemory ε) (address : Nat) (data : List UInt8) :
    Except MemError (GuestMemory ε) :=
  if g.RangeMapped address data.length then .ok { g with bytes := g.bytes.writeBytes address data }
  else .error (.uc .writeUnmapped)

def memRead (g : GuestMemory ε) (address size : Nat) : Except MemError (List UInt8) :=
  if g.RangeMapped address size then .ok (g.bytes.readBytes address size)
  else .error (.uc .readUnmapped)

end GuestMemory

end

end Speakeasy
