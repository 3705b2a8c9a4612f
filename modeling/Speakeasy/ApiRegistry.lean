import Speakeasy.MemoryManager
import Speakeasy.LoaderLists
import Mathlib.Data.List.AList
import Mathlib.Data.List.Sort

namespace Speakeasy

open PageEngine MemoryManager

abbrev PyDict (α β : Type) := AList fun _ : α => β

/-- A dictionary of dictionaries, where an outer key that is missing is as one without inner keys. -/
abbrev PyTable (κ β : Type) := PyDict Nat (PyDict κ β)

namespace PyTable

variable {κ β : Type} [DecidableEq κ]

def get (t : PyTable κ β) (id : Nat) (key : κ) : Option β := ((t.lookup id).getD ∅).lookup key

/-- `t.setdefault(id, {})`. -/
def setDefault (t : PyTable κ β) (id : Nat) : PyTable κ β := t.insert id ((t.lookup id).getD ∅)

/-- `t.setdefault(id, {})[key] = value`. -/
def set (t : PyTable κ β) (id : Nat) (key : κ) (value : β) : PyTable κ β :=
  t.insert id (((t.lookup id).getD ∅).insert key value)

theorem get_setDefault (t : PyTable κ β) (id id' : Nat) (key : κ) :
    get (setDefault t id) id' key = get t id' key := by
  unfold get setDefault
  by_cases hid : id' = id
  · rw [hid, AList.lookup_insert, Option.getD_some]
  · rw [AList.lookup_insert_ne hid]

theorem get_set_self (t : PyTable κ β) (id : Nat) (key : κ) (value : β) :
    get (set t id key value) id key = some value := by
  rw [get, set, AList.lookup_insert, Option.getD_some, AList.lookup_insert]

theorem get_set_other {t : PyTable κ β} {id id' : Nat} {key key' : κ} {value : β}
    (h : id' ≠ id ∨ key' ≠ key) : get (set t id key value) id' key' = get t id' key' := by
  unfold get set
  by_cases hid : id' = id
  · rw [hid, AList.lookup_insert, Option.getD_some,
      AList.lookup_insert_ne (h.resolve_left (not_not_intro hid))]
  · rw [AList.lookup_insert_ne hid]

theorem get_erase (t : PyTable κ β) (id : Nat) (key : κ) : get (t.erase id) id key = none := by
  rw [get, AList.lookup_erase, Option.getD_none, AList.lookup_empty]

theorem get_erase_ne {t : PyTable κ β} {id id' : Nat} (h : id' ≠ id) (key : κ) :
    get (t.erase id) id' key = get t id' key := by
  rw [get, get, AList.lookup_erase_ne h]

end PyTable

inductive ExportKind
  | function
  | data
deriving DecidableEq, Repr

structure ExportEntry where
  name : Option PyStr
  address : Nat
  ordinal : Nat
  kind : ExportKind := .function
  forwarder : Option PyStr := none
deriving DecidableEq, Repr

inductive ImageSource
  | guestPe
  | guestShellcode
  | synthetic
deriving DecidableEq, Repr

structure SectionEntry where
  name : PyStr
  virtualAddress : Nat
  virtualSize : Nat
  perms : Nat
deriving DecidableEq, Repr

/-- A module with its image. Two modules are the same if they have the same `id`. -/
structure ImageModule extends RuntimeModule where
  id : Nat
  name : PyStr
  arch : Arch
  source : ImageSource
  sections : List SectionEntry
  exports : List ExportEntry
deriving DecidableEq, Repr

inductive SymbolRef
  | name (s : PyStr)
  | ordinal (n : Nat)
deriving DecidableEq, Repr

inductive ApiError
  | windowsEmu (message : PyStr)
  | mem (e : MemError)
  | valueError
deriving DecidableEq, Repr

/-- The digits of `str.isdigit`, with their value for `int`. A digit such as a superscript has none. -/
abbrev Digits := Char → Option (Option Nat)

namespace Digits

variable (digit : Digits)

def isDigit (s : PyStr) : Bool := s ≠ [] && s.all fun c => (digit c).isSome

/-- `int(s)` for digits, no more than 4300. -/
def int (s : PyStr) : Except ApiError Nat :=
  if 4300 < s.length then .error .valueError
  else
    match s.mapM fun c => (digit c).join with
    | none => .error .valueError
    | some values => .ok (values.foldl (fun n d => 10 * n + d) 0)

end Digits

/-- `symbol_ref`: a name such as `ordinal_12` is the ordinal. -/
def symbolRef (digit : Digits) : SymbolRef → Except ApiError SymbolRef
  | .ordinal n => .ok (.ordinal n)
  | .name s =>
    if "ordinal_".toList <+: s ∧ digit.isDigit (s.drop 8) then (digit.int (s.drop 8)).map .ordinal
    else .ok (.name s)

/-- An entry object: two entries are the same if they have the same `id`. Its list of names grows,
so the registry keeps it. -/
structure ApiEntry where
  id : Nat
  module : ImageModule
  exportEntry : ExportEntry
  trap : Option Nat
deriving DecidableEq, Repr

def ApiEntry.address (e : ApiEntry) : Nat := e.exportEntry.address

def trapSize : Nat := 0x100000
def trapStride : Nat := 16
def apiSlotSize : Nat := 32
def apiEntryOffset : Nat := 16

/-- `encode_api_stub`. -/
def encodeApiStub (arch : Arch) (entryAddress trapAddress : Nat) : List UInt8 :=
  match arch with
  | .x86 => [0x8b, 0xff, 0x55, 0x8b, 0xec, 0x5d, 0xe9] ++
      toBytes 4 (((trapAddress : Int) - entryAddress - 11) % 0x100000000).toNat
  | .amd64 => [0x66, 0x90, 0xff, 0x25, 0x00, 0x00, 0x00, 0x00] ++ toBytes 8 trapAddress

/-- The registry. `handed` records the tokens that `_allocate_trap` returned, which the source does
not keep. -/
structure ApiRegistry where
  entries : PyDict Nat ApiEntry := ∅
  traps : PyDict Nat ApiEntry := ∅
  names : PyTable PyStr ApiEntry := ∅
  ordinals : PyTable Nat ApiEntry := ∅
  dynamicOffsets : PyDict Nat Nat := ∅
  trapBase : Option Nat := none
  addresses : List Nat := []
  trapCount : Nat := 0
  entryNames : PyDict Nat (List PyStr) := ∅
  nextId : Nat := 0
  handed : List Nat := []

namespace ApiRegistry

/-- The part of `_allocate_trap` that reserves the addresses of the tokens, once. -/
def reserveTraps {ε : Type} [PageEngine ε] (env : MemEnv) (s : ApiRegistry) (g : GuestMemory ε) :
    Except ApiError Nat × ApiRegistry × GuestMemory ε :=
  match s.trapBase with
  | some base => (.ok base, s, g)
  | none =>
    match getValidRanges env g.mgr trapSize (some 0xF0000000) with
    | .error e => (.error (.mem e), s, g)
    | .ok (base, size) =>
      if base + size > 0x100000000 then
        (.error (.windowsEmu "no address space available for API trap reservation".toList), s, g)
      else
        match memReserve env g.mgr
          { size := size, base := some base, tag := some "emu.api_traps".toList } with
        | (.error e, mgr) => (.error (.mem e), s, { g with mgr := mgr })
        | (.ok _, mgr) => (.ok base, { s with trapBase := some base }, { g with mgr := mgr })

/-- The token for the current count. -/
def takeTrap (s : ApiRegistry) (base : Nat) : Except ApiError Nat × ApiRegistry :=
  let offset := s.trapCount * trapStride
  if offset ≥ trapSize then (.error (.windowsEmu "API trap reservation exhausted".toList), s)
  else (.ok (base + offset),
    { s with trapCount := s.trapCount + 1, handed := s.handed ++ [base + offset] })

def allocateTrap {ε : Type} [PageEngine ε] (env : MemEnv) (s : ApiRegistry) (g : GuestMemory ε) :
    Except ApiError Nat × ApiRegistry × GuestMemory ε :=
  match s.reserveTraps env g with
  | (.error e, s, g) => (.error e, s, g)
  | (.ok base, s, g) =>
    let (r, s) := s.takeTrap base
    (r, s, g)

/-- The loop body of `unregister_module`. -/
def dropEntry (s : ApiRegistry) (address : Nat) : ApiRegistry :=
  match s.entries.lookup address with
  | none => s
  | some entry => { s with
      entries := s.entries.erase address
      traps := match entry.trap with
        | none => s.traps
        | some trap => s.traps.erase trap }

def addressesOf (s : ApiRegistry) (m : ImageModule) : List Nat :=
  (s.entries.entries.filter fun x => decide (x.2.module.id = m.id)).map Sigma.fst

def unregisterModule (s : ApiRegistry) (m : ImageModule) : ApiRegistry :=
  let s := (s.addressesOf m).foldl dropEntry s
  { s with
    addresses := s.entries.keys.insertionSort (· ≤ ·)
    names := s.names.erase m.id
    ordinals := s.ordinals.erase m.id
    dynamicOffsets := s.dynamicOffsets.erase m.id }

/-- `self.entries[address] = entry` and `insort(self._addresses, address)`. -/
def storeEntry (s : ApiRegistry) (entry : ApiEntry) : ApiRegistry := { s with
  entries := s.entries.insert entry.address entry
  addresses := s.addresses.orderedInsert (· ≤ ·) entry.address }

def storeTrap (s : ApiRegistry) (entry : ApiEntry) : ApiRegistry :=
  match entry.trap with
  | none => s
  | some trap => { s with traps := s.traps.insert trap entry }

def setName (s : ApiRegistry) (m : ImageModule) (name : PyStr) (entry : ApiEntry) : ApiRegistry :=
  { s with names := PyTable.set s.names m.id name entry }

def setOrdinal (s : ApiRegistry) (m : ImageModule) (ordinal : Nat) (entry : ApiEntry) : ApiRegistry :=
  { s with ordinals := PyTable.set s.ordinals m.id ordinal entry }

/-- `entry.names.append(name)`, once. -/
def addEntryName (s : ApiRegistry) (entry : ApiEntry) (name : PyStr) : ApiRegistry :=
  let names := (s.entryNames.lookup entry.id).getD []
  if name ∈ names then s
  else { s with entryNames := s.entryNames.insert entry.id (names ++ [name]) }

def newEntry (s : ApiRegistry) (m : ImageModule) (exp : ExportEntry) (trap : Option Nat) :
    ApiEntry × ApiRegistry :=
  (⟨s.nextId, m, exp, trap⟩, { s with nextId := s.nextId + 1 })

variable {ε : Type} [PageEngine ε]

/-- The entry of an export, which is made when its address has none. -/
def resolveEntry (env : MemEnv) (m : ImageModule) (exp : ExportEntry) (s : ApiRegistry)
    (g : GuestMemory ε) : Except ApiError ApiEntry × ApiRegistry × GuestMemory ε :=
  match s.entries.lookup exp.address with
  | some entry => (.ok entry, s, g)
  | none =>
    if m.source = .synthetic ∧ exp.kind = .function ∧ exp.forwarder.getD [] = [] then
      match s.allocateTrap env g with
      | (.error e, s, g) => (.error e, s, g)
      | (.ok trap, s, g) =>
        match g.memWrite exp.address (encodeApiStub m.arch exp.address trap) with
        | .error e => (.error (.mem e), s, g)
        | .ok g =>
          let (entry, s) := s.newEntry m exp (some trap)
          (.ok entry, (s.storeTrap entry).storeEntry entry, g)
    else
      let (entry, s) := s.newEntry m exp none
      (.ok entry, s.storeEntry entry, g)

/-- The loop of `register_module` over the exports. -/
def registerExports (env : MemEnv) (m : ImageModule) :
    List ExportEntry → ApiRegistry → GuestMemory ε → Except ApiError Unit × ApiRegistry × GuestMemory ε
  | [], s, g => (.ok (), s, g)
  | exp :: exports, s, g =>
    if exp.address = 0 then registerExports env m exports s g
    else
      match s.resolveEntry env m exp g with
      | (.error e, s, g) => (.error e, s, g)
      | (.ok entry, s, g) =>
        let s := match exp.name with
          | none => s
          | some [] => s
          | some name => (s.addEntryName entry name).setName m name entry
        registerExports env m exports (s.setOrdinal m exp.ordinal entry) g

def registerModule (env : MemEnv) (s : ApiRegistry) (m : ImageModule) (g : GuestMemory ε) :
    Except ApiError Unit × ApiRegistry × GuestMemory ε :=
  registerExports env m m.exports { s with
    names := PyTable.setDefault s.names m.id
    ordinals := PyTable.setDefault s.ordinals m.id } g

/-- The entry for a reference that `symbol_ref` gave. -/
def find (s : ApiRegistry) (m : ImageModule) : SymbolRef → Option ApiEntry
  | .ordinal n => PyTable.get s.ordinals m.id n
  | .name name => PyTable.get s.names m.id name

def lookup (digit : Digits) (s : ApiRegistry) (m : ImageModule) (reference : SymbolRef) :
    Except ApiError (Option ApiEntry) :=
  (symbolRef digit reference).map (s.find m)

/-- The checks of `dynamic`, which give the free slot of the arena. -/
def dynamicSlot (s : ApiRegistry) (m : ImageModule) (g : GuestMemory ε) : Except ApiError Nat :=
  if m.source ≠ .synthetic then
    .error (.windowsEmu "cannot synthesize an export in a guest PE".toList)
  else
    let offset := (s.dynamicOffsets.lookup m.id).getD 0
    match m.sections.find? fun s => decide (s.name = ".dyn".toList) with
    | none => .error (.windowsEmu ("dynamic API arena exhausted for ".toList ++ m.name))
    | some arena =>
      if offset + apiSlotSize > arena.virtualSize then
        .error (.windowsEmu ("dynamic API arena exhausted for ".toList ++ m.name))
      else
        let slot := m.base + arena.virtualAddress + offset
        let perms := ((g.mgr.getMemRegions.find? fun r =>
          decide (r.first ≤ slot ∧ slot + apiSlotSize ≤ r.last + 1)).map Region.perms).getD 0
        if perms &&& ucProtExec = 0 then
          .error (.windowsEmu ("dynamic API arena modified by guest for ".toList ++ m.name))
        else
          match g.memRead slot apiSlotSize with
          | .error e => .error (.mem e)
          | .ok data =>
            if data ≠ List.replicate apiSlotSize 0xcc then
              .error (.windowsEmu ("dynamic API arena modified by guest for ".toList ++ m.name))
            else .ok slot

def dynamicExport (reference : SymbolRef) (address : Nat) : ExportEntry :=
  match reference with
  | .name name => { name := some name, address := address, ordinal := 0 }
  | .ordinal n => { name := none, address := address, ordinal := n }

/-- The bytes of a dynamic slot. -/
def dynamicCode (arch : Arch) (address trap : Nat) : List UInt8 :=
  let stub := encodeApiStub arch address trap
  List.replicate apiEntryOffset 0x90 ++ stub ++
    List.replicate (apiSlotSize - apiEntryOffset - stub.length) 0xcc

/-- The end of `dynamic`, from the new entry on. -/
def bindDynamic (s : ApiRegistry) (m : ImageModule) (reference : SymbolRef) (address trap : Nat) :
    ApiEntry × ApiRegistry :=
  let (entry, s) := s.newEntry m (dynamicExport reference address) (some trap)
  let s := (s.storeEntry entry).storeTrap entry
  let s := match reference with
    | .name name => (s.addEntryName entry name).setName m name entry
    | .ordinal n => s.setOrdinal m n entry
  (entry, { s with
    dynamicOffsets := s.dynamicOffsets.insert m.id
      ((s.dynamicOffsets.lookup m.id).getD 0 + apiSlotSize) })

/-- The part of `dynamic` that makes an entry in a slot. -/
def makeDynamic (env : MemEnv) (s : ApiRegistry) (m : ImageModule) (reference : SymbolRef)
    (slot : Nat) (g : GuestMemory ε) : Except ApiError ApiEntry × ApiRegistry × GuestMemory ε :=
  let address := slot + apiEntryOffset
  match s.allocateTrap env g with
  | (.error e, s, g) => (.error e, s, g)
  | (.ok trap, s, g) =>
    match g.memWrite slot (dynamicCode m.arch address trap) with
    | .error e => (.error (.mem e), s, g)
    | .ok g =>
      let (entry, s) := s.bindDynamic m reference address trap
      (.ok entry, s, g)

def dynamic (digit : Digits) (env : MemEnv) (s : ApiRegistry) (m : ImageModule) (reference : SymbolRef)
    (g : GuestMemory ε) : Except ApiError ApiEntry × ApiRegistry × GuestMemory ε :=
  match s.lookup digit m reference with
  | .error e => (.error e, s, g)
  | .ok (some entry) => (.ok entry, s, g)
  | .ok none =>
    match s.dynamicSlot m g with
    | .error e => (.error e, s, g)
    | .ok slot =>
      match symbolRef digit reference with
      | .error e => (.error e, s, g)
      | .ok reference => s.makeDynamic env m reference slot g

end ApiRegistry

end Speakeasy
