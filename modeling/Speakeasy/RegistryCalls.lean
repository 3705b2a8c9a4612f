import Speakeasy.RegistryManager
import Speakeasy.RegistrySpellings
import Speakeasy.FoldRuns

namespace Speakeasy

inductive RegStatus
  | success
  | invalidHandle
  | fileNotFound
  | pathNotFound
  | objectNameNotFound
deriving DecidableEq, Repr

inductive RegDisposition
  | createdNewKey
  | openedExistingKey
deriving DecidableEq, Repr

/-- What a call gives back: its status, and what it writes for the handle and the disposition. -/
structure RegReply where
  rv : RegStatus
  hnd : Option RegHandle := none
  disp : Option RegDisposition := none
deriving DecidableEq, Repr

abbrev RegCall := Except RegistryError (RegReply × RegistryManager)

/-- `sub_key.lstrip("\\")`. -/
def lstripSep (path : PyStr) : PyStr := path.dropWhile (· = '\\')

def startSep (subKey : PyStr) : PyStr := if ['\\'] <+: subKey then subKey else '\\' :: subKey

namespace RegistryManager

variable (env : RegistryEnv) (s : RegistryManager)

/-- The name of a predefined key, or the path of the key that a handle names. -/
def hkeyPath (s : RegistryManager) : RegHandle → Option PyStr
  | .predefined hk => some hk.name
  | .table n => (s.getKey (.table n)).map RegKey.path

/-- `reg_get_key` of a path. For no path it takes the handle 0, which no key has. -/
def regGetKey (path : PyStr) : Option RegKey :=
  if path = [] then none else s.getKeyFromPath env path

def disposition (existing : Option RegKey) : RegDisposition :=
  if existing.isSome then .openedExistingKey else .createdNewKey

/-- `AdvApi32.open_key`. -/
def advOpenKey (hKey : RegHandle) (lpSubKey : PyStr) (newHandle : Bool) : RegCall :=
  match s.hkeyPath hKey with
  | none => .ok ({ rv := .invalidHandle }, s)
  | some hkeyName =>
    if lpSubKey ≠ [] then
      match s.openKey env (hkeyName ++ startSep lpSubKey) false with
      | .error e => .error e
      | .ok (none, s) => .ok ({ rv := .fileNotFound }, s)
      | .ok (some hnd, s) => .ok ({ rv := .success, hnd := some hnd }, s)
    else if newHandle then
      match s.openKey env hkeyName false with
      | .error e => .error e
      | .ok (hnd, s) => .ok ({ rv := .success, hnd }, s)
    else .ok ({ rv := .success, hnd := some hKey }, s)

def regOpenKeyEx (hKey : RegHandle) (lpSubKey : PyStr) : RegCall := s.advOpenKey env hKey lpSubKey true

def regCreateKey (hKey : RegHandle) (subKey : PyStr) : RegCall :=
  match s.getKey hKey with
  | none => .ok ({ rv := .invalidHandle }, s)
  | some key =>
    if subKey ≠ [] then
      match s.openKey env (key.path ++ '\\' :: lstripSep subKey) true with
      | .error e => .error e
      | .ok (hnd, s) => .ok ({ rv := .success, hnd }, s)
    else .ok ({ rv := .success, hnd := some hKey }, s)

def createPath (keyPath subKey : PyStr) : PyStr :=
  if keyPath ≠ [] ∧ subKey ≠ [] then keyPath ++ startSep subKey else keyPath

def regCreateKeyEx (hKey : RegHandle) (subKey : PyStr) : RegCall :=
  match s.hkeyPath hKey with
  | none => .ok ({ rv := .invalidHandle }, s)
  | some keyPath =>
    let keyPath := createPath keyPath subKey
    let existing := s.regGetKey env keyPath
    match s.openKey env keyPath true with
    | .error e => .error e
    | .ok (none, s) => .ok ({ rv := .pathNotFound }, s)
    | .ok (some hnd, s) =>
      .ok ({ rv := .success, hnd := some hnd, disp := some (disposition existing) }, s)

/-- `RegGetValue` up to the handle that it reads the value of. -/
def regGetValue (hkey : RegHandle) (lpSubKey : PyStr) : RegCall :=
  match s.getKey hkey with
  | none => .ok ({ rv := .invalidHandle }, s)
  | some key =>
    if lpSubKey ≠ [] then
      match s.openKey env (key.path ++ '\\' :: lpSubKey) false with
      | .error e => .error e
      | .ok (none, s) => .ok ({ rv := .fileNotFound }, s)
      | .ok (some hnd, s) => .ok ({ rv := .success, hnd := some hnd }, s)
    else .ok ({ rv := .success, hnd := some hkey }, s)

def rootedPath (root path : PyStr) : PyStr := if path ≠ [] then root ++ '\\' :: path else root

/-- `ZwCreateKey` after it has the path. -/
def zwCreatePath (path : PyStr) : RegCall :=
  let existing := s.regGetKey env path
  match s.openKey env path true with
  | .error e => .error e
  | .ok (hnd, s) =>
    match hnd.bind s.getKey with
    | none => .ok ({ rv := .objectNameNotFound }, s)
    | some _ => .ok ({ rv := .success, hnd, disp := some (disposition existing) }, s)

def zwCreateKey (rootDirectory : Option RegHandle) (path : PyStr) : RegCall :=
  match rootDirectory with
  | none => s.zwCreatePath env path
  | some hnd =>
    match s.getKey hnd with
    | none => .ok ({ rv := .invalidHandle }, s)
    | some root => s.zwCreatePath env (rootedPath root.path path)

end RegistryManager

/-- The entry points that take the handle of a key and a path below it. -/
inductive RegEntry
  | regOpenKeyEx
  | regCreateKey
  | regCreateKeyEx
  | regGetValue
  | zwCreateKey
deriving DecidableEq, Repr

namespace RegEntry

def call (env : RegistryEnv) (s : RegistryManager) (hnd : RegHandle) (sub : PyStr) : RegEntry → RegCall
  | .regOpenKeyEx => s.regOpenKeyEx env hnd sub
  | .regCreateKey => s.regCreateKey env hnd sub
  | .regCreateKeyEx => s.regCreateKeyEx env hnd sub
  | .regGetValue => s.regGetValue env hnd sub
  | .zwCreateKey => s.zwCreateKey env (some hnd) sub

def creates : RegEntry → Bool
  | .regOpenKeyEx | .regGetValue => false
  | .regCreateKey | .regCreateKeyEx | .zwCreateKey => true

/-- Without a subkey the call gives back the handle that it has. -/
def keepsHandle : RegEntry → Bool
  | .regCreateKey | .regGetValue => true
  | .regOpenKeyEx | .regCreateKeyEx | .zwCreateKey => false

def reportsDisposition : RegEntry → Bool
  | .regCreateKeyEx | .zwCreateKey => true
  | .regOpenKeyEx | .regCreateKey | .regGetValue => false

/-- The path that the call opens. -/
def joined (key sub : PyStr) : RegEntry → PyStr
  | .regOpenKeyEx => if sub ≠ [] then key ++ startSep sub else key
  | .regCreateKey => if sub ≠ [] then key ++ '\\' :: lstripSep sub else key
  | .regCreateKeyEx => RegistryManager.createPath key sub
  | .regGetValue => if sub ≠ [] then key ++ '\\' :: sub else key
  | .zwCreateKey => RegistryManager.rootedPath key sub

/-- The backslashes that the call leaves between the key and a subkey with so many before it. -/
def separators (leading : Nat) : RegEntry → Nat
  | .regOpenKeyEx | .regCreateKeyEx => max leading 1
  | .regCreateKey => 1
  | .regGetValue | .zwCreateKey => leading + 1

end RegEntry

namespace RegistryManager

variable {env : RegistryEnv} {s s' : RegistryManager} {path : PyStr} {key : RegKey}

/-- The key that opening a path gives: a known one, or a new one if the path is of a key. -/
def openedKey (env : RegistryEnv) (s : RegistryManager) (path : PyStr) (create : Bool) :
    Except RegistryError (Option RegKey) :=
  match s.getKeyFromPath env path with
  | some key => .ok (some key)
  | none =>
    match s.getKeyFromConfig env (normalizeRegPath env.lc path) with
    | .error e => .error e
    | .ok inConfig =>
      if inConfig ∨ create ∨ s.isKeyAParentKey env (normalizeRegPath env.lc path) then
        .ok (some ⟨s.nextId, normalizeRegPath env.lc path⟩)
      else .ok none

/-- The key that the handle of an open names after it. -/
def handleKey (result : Except RegistryError (Option RegHandle × RegistryManager)) :
    Except RegistryError (Option RegKey) :=
  result.map fun r => r.1.bind r.2.getKey

theorem openKey_openedKey (env : RegistryEnv) (s : RegistryManager) (path : PyStr) (create : Bool) :
    handleKey (s.openKey env path create) = s.openedKey env path create := by
  unfold openKey openedKey
  simp only [getKeyFromPath_norm]
  cases hknown : s.getKeyFromPath env path with
  | some key => simp [handleKey, Except.map, newHandle, getKey]
  | none =>
    cases hconfig : s.getKeyFromConfig env (normalizeRegPath env.lc path) with
    | error e => rfl
    | ok inConfig =>
      cases inConfig with
      | true => simp [handleKey, Except.map, newHandle, appendKey, getKey]
      | false =>
        by_cases hwhy : create ∨ s.isKeyAParentKey env (normalizeRegPath env.lc path)
        · have hwhy' : (false = true) ∨ create = true ∨
              s.isKeyAParentKey env (normalizeRegPath env.lc path) = true := Or.inr hwhy
          simp only [if_pos hwhy, if_pos hwhy']
          simp [handleKey, Except.map, newHandle, appendKey, discardDeleted, getKey]
        · have hwhy' : ¬((false = true) ∨ create = true ∨
              s.isKeyAParentKey env (normalizeRegPath env.lc path) = true) := by
            simpa using hwhy
          simp only [if_neg hwhy, if_neg hwhy']
          rfl

/-- An open that creates gives a handle unless it raises. -/
theorem openKey_creates {hnd : Option RegHandle} (h : s.openKey env path true = .ok (hnd, s')) :
    ∃ key, hnd.bind s'.getKey = some key := by
  have hkey : handleKey (s.openKey env path true) = .ok (hnd.bind s'.getKey) := by
    rw [h]
    rfl
  rw [openKey_openedKey, openedKey] at hkey
  split at hkey
  next key _ => exact ⟨key, (Except.ok.inj hkey).symm⟩
  next =>
    split at hkey
    next => cases hkey
    next =>
      rw [if_pos (by simp)] at hkey
      exact ⟨_, (Except.ok.inj hkey).symm⟩

end RegistryManager

end Speakeasy
