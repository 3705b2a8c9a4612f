import Speakeasy.MemoryRuns
import Speakeasy.PageProtection
import Speakeasy.ByteMemory

namespace Speakeasy

open PageEngine MemoryManager

/-- `str.encode("utf-16le")`. -/
def utf16le (s : PyStr) : List UInt8 :=
  s.flatMap fun c =>
    if c.toNat < 0x10000 then toBytes 2 c.toNat
    else toBytes 2 (0xD800 + (c.toNat - 0x10000) / 0x400) ++
      toBytes 2 (0xDC00 + (c.toNat - 0x10000) % 0x400)

/-- Where the path after the drive begins, as `ntpath.splitroot` finds it in a path whose slashes
are backslashes. -/
def driveLength (p : PyStr) : Nat :=
  match p with
  | '\\' :: '\\' :: _ =>
    let start := if (p.take 8).map Char.toUpper = "\\\\?\\UNC\\".toList then 8 else 2
    let server := (p.drop start).takeWhile (· ≠ '\\')
    let share := (p.drop (start + server.length + 1)).takeWhile (· ≠ '\\')
    min p.length (start + server.length + 1 + share.length)
  | '\\' :: _ => 0
  | _ :: ':' :: _ => 2
  | _ => 0

/-- `ntpath.basename`: what follows the last separator of the path after the drive. -/
def ntBasename (p : PyStr) : PyStr :=
  let drive := driveLength (p.map fun c => if c = '/' then '\\' else c)
  ((p.drop drive).reverse.takeWhile fun c => c ≠ '\\' ∧ c ≠ '/').reverse

inductive LoaderList
  | inLoadOrder
  | inMemoryOrder
  | inInitializationOrder
deriving DecidableEq, Repr

def loaderLists : List LoaderList := [.inLoadOrder, .inMemoryOrder, .inInitializationOrder]

structure ListEntry where
  flink : Nat := 0
  blink : Nat := 0
deriving DecidableEq, Repr

structure UnicodeString where
  length : Nat := 0
  maximumLength : Nat := 0
  buffer : Nat := 0
deriving DecidableEq, Repr

def ListEntry.getBytes (ptrSize : Nat) (e : ListEntry) : List UInt8 :=
  toBytes ptrSize e.flink ++ toBytes ptrSize e.blink

def UnicodeString.getBytes (ptrSize : Nat) (u : UnicodeString) : List UInt8 :=
  toBytes 2 u.length ++ toBytes 2 u.maximumLength ++ List.replicate (ptrSize - 4) 0 ++
    toBytes ptrSize u.buffer

/-- `LDR_DATA_TABLE_ENTRY`. The fields that stay 0 are in its bytes only. -/
structure LdrDataTableEntry where
  links : LoaderList → ListEntry
  dllBase : Nat
  entryPoint : Nat
  sizeOfImage : Nat
  fullDllName : UnicodeString
  baseDllName : UnicodeString

namespace LdrDataTableEntry

def linkOffset (ptrSize : Nat) : LoaderList → Nat
  | .inLoadOrder => 0
  | .inMemoryOrder => 2 * ptrSize
  | .inInitializationOrder => 4 * ptrSize

def getBytes (ptrSize : Nat) (o : LdrDataTableEntry) : List UInt8 :=
  (loaderLists.flatMap fun l => (o.links l).getBytes ptrSize) ++
    (toBytes ptrSize o.dllBase ++ toBytes ptrSize o.entryPoint ++ toBytes 4 o.sizeOfImage ++
      List.replicate (ptrSize - 4) 0 ++ o.fullDllName.getBytes ptrSize ++
      o.baseDllName.getBytes ptrSize ++ List.replicate 8 0)

def sizeof (ptrSize : Nat) : Nat := 8 * ptrSize + 4 + (ptrSize - 4) + 2 * (4 + (ptrSize - 4) + ptrSize) + 8

end LdrDataTableEntry

/-- `PEB_LDR_DATA`: only the heads of the three lists are ever set. -/
structure PebLdrData where
  address : Nat
  heads : LoaderList → ListEntry

namespace PebLdrData

def headOffset (ptrSize : Nat) (l : LoaderList) : Nat :=
  8 + ptrSize + LdrDataTableEntry.linkOffset ptrSize l

def getBytes (ptrSize : Nat) (o : PebLdrData) : List UInt8 :=
  List.replicate (8 + ptrSize) 0 ++ (loaderLists.flatMap fun l => (o.heads l).getBytes ptrSize) ++
    List.replicate (3 * ptrSize) 0

def sizeof (ptrSize : Nat) : Nat := 8 + ptrSize + 6 * ptrSize + 3 * ptrSize

end PebLdrData

structure RuntimeModule where
  base : Nat
  ep : Nat
  imageSize : Nat
  emuPath : PyStr
  isExe : Bool
deriving DecidableEq, Repr

structure LdrEntry where
  address : Nat
  object : LdrDataTableEntry

/-- A process with its loader data, and the memory that it is written to. `peb` is the bytes of the
PEB object, and `pe` the base of its main image. -/
structure LoaderProcess (ε : Type) where
  mgr : MemoryManager ε
  memory : ByteMemory
  ldrEntries : List LdrEntry
  pebModules : List (Nat × RuntimeModule)
  base : Nat
  pe : Option Nat
  pebAddress : Nat
  peb : List UInt8
  pebLdrData : PebLdrData

inductive PebError
  | mem (e : MemError)
  | key
deriving DecidableEq, Repr

/-- `KernelObject.write_back`. -/
def writeBack (m : ByteMemory) (address : Nat) (bs : List UInt8) : ByteMemory :=
  if address ≠ 0 then m.writeBytes address bs else m

/-- The pointer field at an offset of an object gets a value. -/
def setPointer (ptrSize offset value : Nat) (object : List UInt8) : List UInt8 :=
  object.take offset ++ toBytes ptrSize value ++ object.drop (offset + ptrSize)

def ldrTag : PyStr := "emu.struct.LDR_DATA_TABLE_ENTRY".toList

namespace LoaderProcess

variable {ε : Type} [PageEngine ε]

def mainBase (p : LoaderProcess ε) : Nat := p.pe.getD p.base

/-- The initialization list does not have the main executable. -/
def InList (p : LoaderProcess ε) (l : LoaderList) (e : LdrEntry) : Prop :=
  ¬(l = .inInitializationOrder ∧
    ∃ m ∈ p.pebModules.lookup e.object.dllBase, m.base = p.mainBase ∧ m.isExe = true)

instance (p : LoaderProcess ε) (l : LoaderList) (e : LdrEntry) : Decidable (p.InList l e) := by
  unfold InList
  cases p.pebModules.lookup e.object.dllBase <;> simp <;> infer_instance

def node (ptrSize : Nat) (l : LoaderList) (e : LdrEntry) : Nat :=
  e.address + LdrDataTableEntry.linkOffset ptrSize l

def head (ptrSize : Nat) (p : LoaderProcess ε) (l : LoaderList) : Nat :=
  p.pebLdrData.address + PebLdrData.headOffset ptrSize l

/-- The nodes of a list, in load order. -/
def nodes (ptrSize : Nat) (p : LoaderProcess ε) (l : LoaderList) (es : List LdrEntry) : List Nat :=
  (es.filter fun e => decide (p.InList l e)).map (node ptrSize l)

def setLink (l : LoaderList) (link : ListEntry) (e : LdrEntry) : LdrEntry :=
  { e with object := { e.object with links := fun l' => if l' = l then link else e.object.links l' } }

/-- The links of one list. `previous` is the node before, and the head comes after the last one. -/
def linkEntries (ptrSize : Nat) (p : LoaderProcess ε) (l : LoaderList) :
    Nat → List LdrEntry → List LdrEntry
  | _, [] => []
  | previous, e :: es =>
    let n := node ptrSize l e
    if p.InList l e then
      setLink l ⟨(p.nodes ptrSize l es).headD (p.head ptrSize l), previous⟩ e ::
        p.linkEntries ptrSize l n es
    else setLink l ⟨n, n⟩ e :: p.linkEntries ptrSize l previous es

/-- The list head: it points to itself when the list is empty. -/
def sentinel (ptrSize : Nat) (p : LoaderProcess ε) (l : LoaderList) : ListEntry :=
  let ns := p.nodes ptrSize l p.ldrEntries
  ⟨ns.headD (p.head ptrSize l), ns.getLastD (p.head ptrSize l)⟩

/-- What `_sync_peb_module_links` writes, in its order. -/
def syncWrites (ptrSize : Nat) (p : LoaderProcess ε) : List (Nat × List UInt8) :=
  (p.ldrEntries.map fun e => (e.address, e.object.getBytes ptrSize)) ++
    [(p.pebLdrData.address, p.pebLdrData.getBytes ptrSize), (p.pebAddress, p.peb)]

/-- `_sync_peb_module_links`. A loader entry whose base is not in `_peb_modules` is a `KeyError`. -/
def syncPebModuleLinks (ptrSize : Nat) (p : LoaderProcess ε) :
    Except PebError Unit × LoaderProcess ε :=
  if ∀ e ∈ p.ldrEntries, p.pebModules.lookup e.object.dllBase ≠ none then
    let es := loaderLists.foldl (fun es l => p.linkEntries ptrSize l (p.head ptrSize l) es) p.ldrEntries
    let p := { p with
      ldrEntries := es
      pebLdrData := { p.pebLdrData with heads := p.sentinel ptrSize }
      peb := setPointer ptrSize (3 * ptrSize) p.pebLdrData.address p.peb }
    (.ok (), { p with memory := (p.syncWrites ptrSize).foldl (fun m w => writeBack m w.1 w.2) p.memory })
  else (.error .key, p)

/-- The loader entry of a module, at an address with room for the path after it. -/
def newEntry (ptrSize : Nat) (address : Nat) (m : RuntimeModule) : LdrEntry :=
  let full := (utf16le (m.emuPath ++ ['\x00'])).length
  let name := (utf16le (ntBasename m.emuPath ++ ['\x00'])).length
  let nameAddr := address + LdrDataTableEntry.sizeof ptrSize
  -- `MaximumLength` is read back from a 16 bit field.
  let maximumLength := full % 0x10000
  { address := address
    object := {
      links := fun _ => {}
      dllBase := m.base % 256 ^ ptrSize
      entryPoint := m.base + m.ep
      sizeOfImage := m.imageSize
      fullDllName := ⟨full - 2, full, nameAddr⟩
      baseDllName := ⟨name - 2, name,
        (((nameAddr + maximumLength : Nat) - name : Int) % (256 ^ ptrSize : Nat)).toNat⟩ } }

def addModuleToPeb (env : WinEnv) (p : LoaderProcess ε) (m : RuntimeModule) :
    Except PebError Unit × LoaderProcess ε :=
  if p.pebModules.lookup m.base ≠ none then p.syncPebModuleLinks env.ptrSize
  else
    let path := utf16le (m.emuPath ++ ['\x00'])
    match MemoryManager.memMap env.mem p.mgr
        { size := LdrDataTableEntry.sizeof env.ptrSize + path.length, tag := some ldrTag } with
    | (.error e, mgr) => (.error (.mem e), { p with mgr := mgr })
    | (.ok address, mgr) =>
      let e := newEntry env.ptrSize address m
      let memory := p.memory.writeBytes (address + LdrDataTableEntry.sizeof env.ptrSize) path
      syncPebModuleLinks env.ptrSize { p with
        mgr := mgr
        memory := writeBack memory address (e.object.getBytes env.ptrSize)
        ldrEntries := p.ldrEntries ++ [e]
        pebModules := p.pebModules ++ [(m.base, m)] }

def removeModuleFromPeb (env : WinEnv) (p : LoaderProcess ε) (m : RuntimeModule) :
    Except PebError Unit × LoaderProcess ε :=
  if p.pebModules.lookup m.base = none then (.ok (), p)
  else
    syncPebModuleLinks env.ptrSize { p with
      ldrEntries := p.ldrEntries.filter fun e => e.object.dllBase != m.base
      pebModules := p.pebModules.filter fun x => x.1 != m.base }

/-- `init_peb`. An error of a module leaves the modules before it added. -/
def initPeb (env : WinEnv) : LoaderProcess ε → List RuntimeModule →
    Except PebError Unit × LoaderProcess ε
  | p, [] => p.syncPebModuleLinks env.ptrSize
  | p, m :: ms =>
    match p.addModuleToPeb env m with
    | (.error e, p) => (.error e, p)
    | (.ok (), p) => initPeb env p ms

end LoaderProcess

end Speakeasy
