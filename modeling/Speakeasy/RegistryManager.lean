import Speakeasy.RegistryPaths
import Speakeasy.Glob

namespace Speakeasy

inductive Hkey
  | classesRoot
  | currentUser
  | localMachine
  | users
deriving DecidableEq, Repr

def Hkey.name : Hkey → PyStr
  | .classesRoot => "HKEY_CLASSES_ROOT".toList
  | .currentUser => "HKEY_CURRENT_USER".toList
  | .localMachine => "HKEY_LOCAL_MACHINE".toList
  | .users => "HKEY_USERS".toList

def hkeys : List Hkey := [.classesRoot, .currentUser, .localMachine, .users]

/-- A key of the configuration. The values of a key can have data that no `RegValue` accepts. -/
structure ConfigKey where
  path : PyStr
  valuesValid : Bool

/-- The object of a key: two objects are the same if they have the same `id`. -/
structure RegKey where
  id : Nat
  path : PyStr
deriving DecidableEq, Repr

inductive RegHandle
  | predefined (hk : Hkey)
  | table (n : Nat)
deriving DecidableEq, Repr

inductive RegistryError
  | invalidValue
deriving DecidableEq, Repr

structure RegistryEnv where
  lc : LowerCase
  config : List ConfigKey

structure RegistryManager where
  predefinedKeys : List (Hkey × RegKey) := []
  keys : List RegKey := []
  deletedPaths : List PyStr := []
  nextId : Nat := 0
  handles : List (Nat × RegKey) := []
  nextHandle : Nat := 0

namespace RegistryManager

def getKey (s : RegistryManager) : RegHandle → Option RegKey
  | .predefined hk => s.predefinedKeys.lookup hk
  | .table n => s.handles.lookup n

/-- Closing a predefined key does nothing. -/
def closeKey (s : RegistryManager) : RegHandle → Bool × RegistryManager
  | .predefined _ => (true, s)
  | .table n =>
    match s.handles.lookup n with
    | none => (false, s)
    | some _ => (true, { s with handles := s.handles.filter fun h => h.1 != n })

def getKeyFromPath (env : RegistryEnv) (s : RegistryManager) (path : PyStr) : Option RegKey :=
  s.keys.find? fun key =>
    fnmatch (env.lc.str key.path) (env.lc.str (normalizeRegPath env.lc path))

def getKeyPaths (env : RegistryEnv) (s : RegistryManager) : List PyStr :=
  s.keys.map RegKey.path ++
    (env.config.map ConfigKey.path).filter fun path => env.lc.str path ∉ s.deletedPaths

def isKeyAParentKey (env : RegistryEnv) (s : RegistryManager) (path : PyStr) : Bool :=
  let pre := rstripSep (env.lc.str path) ++ ['\\']
  (s.getKeyPaths env).any fun p => decide (pre <+: env.lc.str p)

/-- The loop of `get_subkeys`, over the paths that are left. -/
def subkeysLoop (lc : LowerCase) (parentPath : PyStr) : List PyStr → List PyStr → List PyStr
  | subkeys, [] => subkeys
  | subkeys, testPath :: paths =>
    if lc.str parentPath <+: lc.str testPath then
      let sub := (testPath.drop parentPath.length).takeWhile (· ≠ '\\')
      if sub = [] ∨ lc.str sub ∈ subkeys.map lc.str then subkeysLoop lc parentPath subkeys paths
      else subkeysLoop lc parentPath (subkeys ++ [sub]) paths
    else subkeysLoop lc parentPath subkeys paths

def getSubkeys (env : RegistryEnv) (s : RegistryManager) (key : RegKey) : List PyStr :=
  subkeysLoop env.lc (rstripSep key.path ++ ['\\']) [] (s.getKeyPaths env)

/-- Whether the configuration gives a key of a path. Reading its values can raise. -/
def getKeyFromConfig (env : RegistryEnv) (s : RegistryManager) (path : PyStr) :
    Except RegistryError Bool :=
  if env.lc.str path ∈ s.deletedPaths then .ok false
  else
    match env.config.find? fun key => decide (env.lc.str key.path = env.lc.str path) with
    | none => .ok false
    | some key => if key.valuesValid then .ok true else .error .invalidValue

/-- `self.keys.append(RegKey(path))`. -/
def appendKey (s : RegistryManager) (path : PyStr) : RegKey × RegistryManager :=
  let key : RegKey := ⟨s.nextId, path⟩
  (key, { s with keys := s.keys ++ [key], nextId := s.nextId + 1 })

def newHandle (s : RegistryManager) (key : RegKey) : RegHandle × RegistryManager :=
  (.table s.nextHandle,
    { s with handles := (s.nextHandle, key) :: s.handles, nextHandle := s.nextHandle + 1 })

/-- `self.deleted_paths.discard(path.lower())`. -/
def discardDeleted (env : RegistryEnv) (s : RegistryManager) (path : PyStr) : RegistryManager :=
  { s with deletedPaths := s.deletedPaths.filter (· ≠ env.lc.str path) }

def createKey (env : RegistryEnv) (s : RegistryManager) (path : PyStr) :
    Except RegistryError (RegKey × RegistryManager) :=
  let path := normalizeRegPath env.lc path
  match s.getKeyFromPath env path with
  | some key => .ok (key, s)
  | none =>
    match s.getKeyFromConfig env path with
    | .error e => .error e
    | .ok true => .ok (s.appendKey path)
    | .ok false =>
      let (key, s) := s.appendKey path
      .ok (key, s.discardDeleted env path)

/-- `get_key_handle`, which `open_key` records an event for. -/
def openKey (env : RegistryEnv) (s : RegistryManager) (path : PyStr) (create : Bool) :
    Except RegistryError (Option RegHandle × RegistryManager) :=
  let path := normalizeRegPath env.lc path
  match s.getKeyFromPath env path with
  | some key =>
    let (hnd, s) := s.newHandle key
    .ok (some hnd, s)
  | none =>
    match s.getKeyFromConfig env path with
    | .error e => .error e
    | .ok true =>
      let (key, s) := s.appendKey path
      let (hnd, s) := s.newHandle key
      .ok (some hnd, s)
    | .ok false =>
      -- A key that is the parent of a known key exists, also when no config entry names it.
      if create ∨ s.isKeyAParentKey env path then
        let (key, s) := s.appendKey path
        let (hnd, s) := s.newHandle key
        .ok (some hnd, s.discardDeleted env path)
      else .ok (none, s)

/-- `delete_key`. It takes away the object of the handle, and no other object of the same path. -/
def deleteKey (env : RegistryEnv) (s : RegistryManager) (handle : RegHandle) :
    Bool × RegistryManager :=
  match s.getKey handle with
  | none => (false, s)
  | some key =>
    (true, { s with
      keys := s.keys.eraseP fun k => k.id == key.id
      deletedPaths := env.lc.str key.path :: s.deletedPaths })

/-- The loop of `__init__` over the predefined keys. -/
def initKeys (env : RegistryEnv) : RegistryManager → List Hkey → Except RegistryError RegistryManager
  | s, [] => .ok s
  | s, hk :: hks =>
    match s.createKey env hk.name with
    | .error e => .error e
    | .ok (key, s) => initKeys env { s with predefinedKeys := s.predefinedKeys ++ [(hk, key)] } hks

def init (env : RegistryEnv) : Except RegistryError RegistryManager := initKeys env {} hkeys

end RegistryManager

section

namespace RegistryManager

variable {env : RegistryEnv} {s s' : RegistryManager} {path : PyStr} {key : RegKey}

/-- How a path becomes a key: it names a known one, or a new one is appended. -/
inductive Resolved (env : RegistryEnv) (s : RegistryManager) (path : PyStr) (create : Bool) :
    RegKey → RegistryManager → Prop
  | known {key : RegKey} (h : s.getKeyFromPath env path = some key) :
      Resolved env s path create key s
  | added {key : RegKey} {deletedPaths : List PyStr} (h : s.getKeyFromPath env path = none)
      (hk : key = ⟨s.nextId, normalizeRegPath env.lc path⟩)
      (hd : deletedPaths = s.deletedPaths ∨
        deletedPaths = s.deletedPaths.filter (· ≠ env.lc.str (normalizeRegPath env.lc path)))
      (why : create = true ∨ s.getKeyFromConfig env (normalizeRegPath env.lc path) = .ok true ∨
        s.isKeyAParentKey env (normalizeRegPath env.lc path) = true) :
      Resolved env s path create key { s with
        keys := s.keys ++ [key]
        nextId := s.nextId + 1
        deletedPaths := deletedPaths }

theorem getKeyFromPath_norm (env : RegistryEnv) (s : RegistryManager) (path : PyStr) :
    s.getKeyFromPath env (normalizeRegPath env.lc path) = s.getKeyFromPath env path := by
  unfold getKeyFromPath
  rw [normalizeRegPath_idem]

theorem createKey_resolved (h : s.createKey env path = .ok (key, s')) :
    Resolved env s path true key s' := by
  simp only [createKey, getKeyFromPath_norm] at h
  split at h
  next k hk =>
    cases h
    exact .known hk
  next hnone =>
    split at h
    next => cases h
    next =>
      cases h
      exact .added hnone rfl (Or.inl rfl) (Or.inl rfl)
    next =>
      cases h
      exact .added hnone rfl (Or.inr rfl) (Or.inl rfl)

/-- An open that gives a handle resolves the path, and another open changes nothing. -/
theorem openKey_resolved {create : Bool} {hnd : Option RegHandle}
    (h : s.openKey env path create = .ok (hnd, s')) :
    (hnd = none ∧ s' = s) ∨
      ∃ key m, Resolved env s path create key m ∧ hnd = some (.table m.nextHandle) ∧
        s' = (m.newHandle key).2 := by
  simp only [openKey, getKeyFromPath_norm] at h
  split at h
  next k hk =>
    cases h
    exact Or.inr ⟨k, s, .known hk, rfl, rfl⟩
  next hnone =>
    split at h
    next => cases h
    next hconfig =>
      cases h
      exact Or.inr ⟨_, _, .added hnone rfl (Or.inl rfl) (Or.inr (Or.inl hconfig)), rfl, rfl⟩
    next =>
      split at h
      next hwhy =>
        cases h
        exact Or.inr ⟨_, _, .added hnone rfl (Or.inr rfl) (hwhy.imp_right Or.inr), rfl, rfl⟩
      next =>
        cases h
        exact Or.inl ⟨rfl, rfl⟩

/-- Every known object has a number of its own. -/
structure Numbered (s : RegistryManager) : Prop where
  fresh : ∀ k ∈ s.keys, k.id < s.nextId
  once : (s.keys.map RegKey.id).Nodup

theorem Numbered.append (h : s.Numbered) {path : PyStr}
    (hkeys : s'.keys = s.keys ++ [⟨s.nextId, path⟩]) (hnext : s'.nextId = s.nextId + 1) :
    s'.Numbered := by
  constructor
  · intro k hk
    rw [hkeys] at hk
    rcases List.mem_append.mp hk with hk | hk
    · have := h.fresh k hk
      omega
    · cases List.mem_singleton.mp hk
      dsimp only
      omega
  · simp only [hkeys, List.map_append, List.map_cons, List.map_nil]
    refine List.nodup_append.mpr ⟨h.once, by simp, ?_⟩
    intro a ha b hb heq
    obtain ⟨k, hk, rfl⟩ := List.mem_map.mp ha
    have hlt := h.fresh k hk
    cases List.mem_singleton.mp hb
    omega

theorem Numbered.sublist (h : s.Numbered) (hkeys : s'.keys.Sublist s.keys)
    (hnext : s'.nextId = s.nextId) : s'.Numbered where
  fresh k hk := hnext ▸ h.fresh k (hkeys.subset hk)
  once := h.once.sublist (hkeys.map _)

theorem Numbered.ne_of_mem_eraseP (h : s.Numbered) {id : Nat} {k : RegKey}
    (hk : k ∈ s.keys.eraseP fun k => k.id == id) : k ∈ s.keys ∧ k.id ≠ id := by
  refine ⟨List.mem_of_mem_eraseP hk, fun heq => ?_⟩
  have hmap : ((s.keys.eraseP fun k => k.id == id).map RegKey.id) = (s.keys.map RegKey.id).erase id := by
    rw [List.erase_eq_eraseP', List.eraseP_map]
    rfl
  have hin : id ∈ (s.keys.map RegKey.id).erase id := hmap ▸ List.mem_map.mpr ⟨k, hk, heq⟩
  exact h.once.not_mem_erase hin

theorem getKey_newHandle (s : RegistryManager) (key : RegKey) :
    (s.newHandle key).2.getKey (.table s.nextHandle) = some key := by
  simp [newHandle, getKey]

theorem closeKey_keys (s : RegistryManager) (hnd : RegHandle) :
    ∃ handles, (s.closeKey hnd).2 = { s with handles := handles } := by
  unfold closeKey
  split
  next => exact ⟨s.handles, rfl⟩
  next =>
    split
    next => exact ⟨s.handles, rfl⟩
    next => exact ⟨_, rfl⟩

/-- For a path without special characters the lookup compares the lower case. -/
theorem getKeyFromPath_of_globFree
    (hg : GlobFree (env.lc.str (normalizeRegPath env.lc path))) :
    s.getKeyFromPath env path = s.keys.find? fun key =>
      decide (env.lc.str key.path = env.lc.str (normalizeRegPath env.lc path)) := by
  unfold getKeyFromPath
  congr 1
  funext key
  rw [Bool.eq_iff_iff, fnmatch_globFree hg, decide_eq_true_eq]

end RegistryManager

inductive RegistryOp
  | createKey (path : PyStr)
  | openKey (path : PyStr) (create : Bool)
  | deleteKey (hnd : RegHandle)
  | closeKey (hnd : RegHandle)

/-- The path that a call gives, and whether it makes the key when it does not exist. -/
def RegistryOp.path : RegistryOp → Option (PyStr × Bool)
  | .createKey path => some (path, true)
  | .openKey path create => some (path, create)
  | .deleteKey _ => none
  | .closeKey _ => none

namespace RegistryManager

/-- One call. A call that raises changes nothing. -/
def step (env : RegistryEnv) (s : RegistryManager) : RegistryOp → RegistryManager
  | .createKey path =>
    match s.createKey env path with
    | .error _ => s
    | .ok (_, s') => s'
  | .openKey path create =>
    match s.openKey env path create with
    | .error _ => s
    | .ok (_, s') => s'
  | .deleteKey hnd => (s.deleteKey env hnd).2
  | .closeKey hnd => (s.closeKey hnd).2

/-- What a call can do. -/
inductive Stepped (env : RegistryEnv) (s : RegistryManager) : RegistryOp → RegistryManager → Prop
  | same {op : RegistryOp} : Stepped env s op s
  | resolved {op : RegistryOp} {path : PyStr} {create : Bool} {key : RegKey} {m : RegistryManager}
      (hp : op.path = some (path, create)) (h : Resolved env s path create key m) :
      Stepped env s op m
  | opened {op : RegistryOp} {path : PyStr} {create : Bool} {key : RegKey} {m : RegistryManager}
      (hp : op.path = some (path, create)) (h : Resolved env s path create key m) :
      Stepped env s op (m.newHandle key).2
  | deleted {hnd : RegHandle} {key : RegKey} (h : s.getKey hnd = some key) :
      Stepped env s (.deleteKey hnd) { s with
        keys := s.keys.eraseP fun k => k.id == key.id
        deletedPaths := env.lc.str key.path :: s.deletedPaths }
  | closed {hnd : RegHandle} {handles : List (Nat × RegKey)} :
      Stepped env s (.closeKey hnd) { s with handles := handles }

theorem step_cases (env : RegistryEnv) (s : RegistryManager) (op : RegistryOp) :
    Stepped env s op (s.step env op) := by
  cases op with
  | createKey path =>
    rw [step]
    split
    next => exact .same
    next key s' h => exact .resolved rfl (createKey_resolved h)
  | openKey path create =>
    rw [step]
    split
    next => exact .same
    next hnd s' h =>
      rcases openKey_resolved h with ⟨_, rfl⟩ | ⟨key, m, hm, _, rfl⟩
      · exact .same
      · exact .opened rfl hm
  | deleteKey hnd =>
    rw [step, deleteKey]
    split
    next => exact .same
    next key h => exact .deleted h
  | closeKey hnd =>
    rw [step]
    obtain ⟨handles, h⟩ := closeKey_keys s hnd
    rw [h]
    exact .closed

end RegistryManager

end

end Speakeasy
