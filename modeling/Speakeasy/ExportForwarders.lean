import Speakeasy.ApiRegistry
import Speakeasy.VisitedChains

namespace Speakeasy

open PageEngine

/-- What `resolve_export` reads of the emulator: the settings for missing exports, the loaded modules, and the
decoding of its texts. -/
structure ExportEnv where
  mem : MemEnv
  functionsAlwaysExist : Bool
  /-- `get_api_hooks(module.name, str(reference))` has a hook. -/
  hasApiHook : PyStr → SymbolRef → Bool
  hasApiSignature : PyStr → PyStr → Bool
  containerImage : Option Nat
  modules : List ImageModule
  distinct : (modules.map ImageModule.id).Nodup
  /-- `get_mod_by_name(normalize_dll_name(module_name(dll)))` -/
  getModByName : PyStr → Option { m // m ∈ modules }
  digit : Digits
  /-- `decode_ansi` -/
  decodeAnsi : UInt8 → Char

abbrev ExportEnv.Module (env : ExportEnv) := { m // m ∈ env.modules }

inductive ResolveAnswer
  | address (a : Nat)
  /-- The target module has to be loaded. -/
  | unloaded (dll : PyStr)
  | error (e : ApiError)
deriving DecidableEq, Repr

namespace ExportEnv

variable {ε : Type} [PageEngine ε] (env : ExportEnv)

def validReference : SymbolRef → Bool
  | .ordinal n => 0 < n && n ≤ 0xFFFF
  | .name s => s ≠ [] && Char.ofNat 0 ∉ s && s.length ≤ 4096

/-- A module without this export may give a dynamic entry. -/
def eligible (m : ImageModule) (reference : SymbolRef) (allowDynamic : Bool) : Bool :=
  (allowDynamic || env.functionsAlwaysExist || env.hasApiHook m.name reference ||
    (match reference with
      | .name s => env.hasApiSignature m.name s
      | .ordinal _ => false) ||
    (m.source = .synthetic && m.exports.isEmpty)) &&
  m.source = .synthetic && env.containerImage ≠ some m.id

/-- The entry of an export, or of a dynamic export. -/
def exportEntry (s : ApiRegistry) (g : GuestMemory ε) (m : ImageModule) (reference : SymbolRef)
    (allowDynamic strict : Bool) : Except ApiError (Option ApiEntry) × ApiRegistry × GuestMemory ε :=
  match s.lookup env.digit m reference with
  | .error e => (.error e, s, g)
  | .ok (some entry) => (.ok (some entry), s, g)
  | .ok none =>
    if strict || !env.eligible m reference allowDynamic then (.ok none, s, g)
    else
      match s.dynamic env.digit env.mem m reference g with
      | (.ok entry, s, g) => (.ok (some entry), s, g)
      | (.error (.windowsEmu _), s, g) => (.ok none, s, g)
      | (.error e, s, g) => (.error e, s, g)

def readWord (g : GuestMemory ε) (address size : Nat) : Option Nat :=
  (g.memRead address size).toOption.map fromBytes

/-- `_get_export_directory` -/
def getExportDirectory (g : GuestMemory ε) (m : ImageModule) : Option (Nat × Nat) := do
  let nt := m.base + (← readWord g (m.base + 0x3C) 4)
  let magic ← readWord g (nt + 0x18) 2
  let directories := nt + 0x18 + if magic = 0x20B then 112 else 96
  if (← readWord g (directories - 4) 4) = 0 then some (0, 0)
  else
    let data ← (g.memRead directories 8).toOption
    some (fromBytes (data.take 4), fromBytes (data.drop 4))

/-- `read_mem_string` of an ANSI string with at most some characters. -/
def readMemString (g : GuestMemory ε) (address : Nat) : Nat → Option PyStr
  | 0 => some []
  | maxChars + 1 => do
    let char ← readWord g address 1
    if char = 0 then some []
    else some (env.decodeAnsi (UInt8.ofNat char) :: (← readMemString g (address + 1) maxChars))

/-- The forwarder of an export. A guest module has its forwarders in the range of its export directory. -/
def forwarder (g : GuestMemory ε) (m : ImageModule) (entry : ApiEntry) : Option PyStr :=
  if m.source = .synthetic then entry.exportEntry.forwarder
  else
    match getExportDirectory g m with
    | none => entry.exportEntry.forwarder
    | some (rva, size) =>
      if m.base + rva ≤ entry.address ∧ entry.address < m.base + rva + size then
        some (entry.exportEntry.forwarder.getD [])
      else none

/-- `target.rsplit(".", 1)` -/
def rsplitDot (target : PyStr) : Option (PyStr × PyStr) :=
  if '.' ∈ target then
    let name := (target.reverse.takeWhile (· ≠ '.')).reverse
    some (target.take (target.length - name.length - 1), name)
  else none

/-- `int(name[1:])` for the target of an ordinal, and else the name. -/
def targetReference (name : PyStr) : Except ApiError SymbolRef :=
  match name with
  | '#' :: digits =>
    if env.digit.isDigit digits then (env.digit.int digits).map .ordinal else .ok (.name name)
  | _ => .ok (.name name)

/-- The text of a forwarder. Windows reads it from the image of a guest module. -/
def targetText (g : GuestMemory ε) (m : ImageModule) (entry : ApiEntry) (forwarder : PyStr) : Option PyStr :=
  if m.source = .synthetic then some forwarder
  else (env.readMemString g entry.address 4096).map (List.filter (· ≠ Char.ofNat 0))

/-- The target of a forwarder: the answer if it fails, or the export of a loaded module. -/
def forwarderTarget (g : GuestMemory ε) (m : ImageModule) (entry : ApiEntry) (forwarder : PyStr) :
    ResolveAnswer ⊕ env.Module × SymbolRef :=
  match env.targetText g m entry forwarder with
  | none => .inl (.address 0)
  | some target =>
    match rsplitDot target with
    | none => .inl (.address 0)
    | some (dll, name) =>
      match env.getModByName dll with
      | none => .inl (.unloaded dll)
      | some m =>
        match env.targetReference name with
        | .error e => .inl (.error e)
        | .ok reference => .inr (m, reference)

/-- `resolve_export`. The visited set has the ids of the modules with the references. -/
def resolveExport (s : ApiRegistry) (g : GuestMemory ε) (m : env.Module) (reference : SymbolRef)
    (allowDynamic strict : Bool) (seen : List (Nat × SymbolRef)) : ResolveAnswer × ApiRegistry × GuestMemory ε :=
  match symbolRef env.digit reference with
  | .error e => (.error e, s, g)
  | .ok reference =>
    if !validReference reference then (.address 0, s, g)
    else
      match env.exportEntry s g m.1 reference allowDynamic strict with
      | (.error e, s, g) => (.error e, s, g)
      | (.ok none, s, g) => (.address 0, s, g)
      | (.ok (some entry), s, g) =>
        match forwarder g m.1 entry with
        | none => (.address entry.address, s, g)
        | some text =>
          if (m.1.id, reference) ∈ seen ∨ 32 ≤ seen.length then (.address 0, s, g)
          else
            match env.forwarderTarget g m.1 entry text with
            | .inl answer => (answer, s, g)
            | .inr (target, reference') =>
              resolveExport s g target reference' false true ((m.1.id, reference) :: seen)
termination_by 32 - seen.length
decreasing_by
  rw [List.length_cons]
  omega

end ExportEnv

end Speakeasy
