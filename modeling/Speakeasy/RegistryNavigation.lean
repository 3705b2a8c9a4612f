import Speakeasy.RegistryJoins
import Speakeasy.RegistryMap

namespace Speakeasy

/-- The key of a result: the object, and its path without case. -/
def namedKey (lc : LowerCase) (result : Except RegistryError (Option RegKey)) :
    Except RegistryError (Option (Nat × PyStr)) :=
  result.map (Option.map fun key => (key.id, lc.str key.path))

/-- The key that the handle of a reply names after the call. -/
def RegCall.key (call : RegCall) : Except RegistryError (Option RegKey) :=
  call.map fun r => r.1.hnd.bind r.2.getKey

namespace RegistryManager

/-- No key has the path. -/
structure Absent (env : RegistryEnv) (s : RegistryManager) (path : PyStr) : Prop where
  known : s.getKeyFromPath env path = none
  config : s.getKeyFromConfig env (normalizeRegPath env.lc path) = .ok false
  parent : s.isKeyAParentKey env (normalizeRegPath env.lc path) = false

/-- The key of the configuration that has the path cannot be read. -/
structure Unreadable (env : RegistryEnv) (s : RegistryManager) (path : PyStr) : Prop where
  known : s.getKeyFromPath env path = none
  config : s.getKeyFromConfig env (normalizeRegPath env.lc path) = .error .invalidValue

/-- Two paths that differ give one key, because a known key matches both, or give none. -/
def SameAnyway (env : RegistryEnv) (s : RegistryManager) (p q : PyStr) (create : Bool) : Prop :=
  (∃ key, s.getKeyFromPath env p = some key ∧ s.getKeyFromPath env q = some key) ∨
    (create = false ∧ s.Absent env p ∧ s.Absent env q) ∨ (s.Unreadable env p ∧ s.Unreadable env q)

def heldKeys (s : RegistryManager) : List RegKey :=
  s.keys ++ (s.handles.map Prod.snd ++ s.predefinedKeys.map Prod.snd)

/-- A number stands for one object, also after its key is deleted. -/
structure Identified (s : RegistryManager) : Prop where
  fresh : ∀ k ∈ s.heldKeys, k.id < s.nextId
  once : ∀ k ∈ s.heldKeys, ∀ l ∈ s.heldKeys, k.id = l.id → k = l

variable {env : RegistryEnv} {s s' : RegistryManager} {p q : PyStr} {create : Bool}

theorem getKeyFromPath_same (h : SamePath env.lc p q) :
    s.getKeyFromPath env p = s.getKeyFromPath env q := by
  unfold getKeyFromPath
  rw [h]

theorem getKeyFromConfig_same (h : SamePath env.lc p q) :
    s.getKeyFromConfig env (normalizeRegPath env.lc p) =
      s.getKeyFromConfig env (normalizeRegPath env.lc q) := by
  unfold getKeyFromConfig
  rw [h]

theorem isKeyAParentKey_same (h : SamePath env.lc p q) :
    s.isKeyAParentKey env (normalizeRegPath env.lc p) =
      s.isKeyAParentKey env (normalizeRegPath env.lc q) := by
  unfold isKeyAParentKey
  rw [h]

theorem namedKey_same (h : SamePath env.lc p q) :
    namedKey env.lc (s.openedKey env p create) = namedKey env.lc (s.openedKey env q create) := by
  unfold openedKey
  rw [getKeyFromPath_same h, getKeyFromConfig_same h, isKeyAParentKey_same h]
  split
  next => rfl
  next =>
    split
    next => rfl
    next =>
      split
      next => exact congrArg (fun path => Except.ok (some (s.nextId, path))) h
      next => rfl

theorem mem_keys_of_getKeyFromPath {key : RegKey} (h : s.getKeyFromPath env p = some key) :
    key ∈ s.keys := List.mem_of_find?_eq_some h

theorem openedKey_known {key : RegKey} (h : s.getKeyFromPath env p = some key) :
    s.openedKey env p create = .ok (some key) := by
  rw [openedKey, h]

theorem Absent.openedKey (h : s.Absent env p) : s.openedKey env p false = .ok none := by
  simp [RegistryManager.openedKey, h.known, h.config, h.parent]

theorem Unreadable.openedKey (h : s.Unreadable env p) :
    s.openedKey env p create = .error .invalidValue := by
  simp [RegistryManager.openedKey, h.known, h.config]

/-- What an open of an unknown path gives. -/
theorem openedKey_unknown (create : Bool) (h : s.getKeyFromPath env p = none) :
    (s.Unreadable env p) ∨ (create = false ∧ s.Absent env p) ∨
      s.openedKey env p create = .ok (some ⟨s.nextId, normalizeRegPath env.lc p⟩) := by
  cases hconfig : s.getKeyFromConfig env (normalizeRegPath env.lc p) with
  | error e => exact Or.inl ⟨h, hconfig⟩
  | ok inConfig =>
    by_cases hwhy : inConfig = true ∨ create = true ∨
        s.isKeyAParentKey env (normalizeRegPath env.lc p) = true
    · refine Or.inr (Or.inr ?_)
      simp only [openedKey, h, hconfig, if_pos hwhy]
    · simp only [not_or, Bool.not_eq_true] at hwhy
      obtain ⟨rfl, hcreate, hparent⟩ := hwhy
      exact Or.inr (Or.inl ⟨hcreate, h, hconfig, hparent⟩)

theorem namedKey_anyway (h : s.SameAnyway env p q create) :
    namedKey env.lc (s.openedKey env p create) = namedKey env.lc (s.openedKey env q create) := by
  rcases h with ⟨key, hp, hq⟩ | ⟨rfl, hp, hq⟩ | ⟨hp, hq⟩
  · rw [openedKey_known hp, openedKey_known hq]
  · rw [hp.openedKey, hq.openedKey]
  · rw [hp.openedKey, hq.openedKey]

theorem Identified.known_eq (h : s.Identified) {k l : RegKey} (hk : k ∈ s.heldKeys) (hl : l ∈ s.heldKeys)
    (heq : namedKey env.lc (.ok (some k)) = namedKey env.lc (.ok (some l))) : k = l := by
  have hpair := Option.some.inj (Except.ok.inj heq)
  exact h.once k hk l hl (Prod.mk.inj hpair).1

/-- A known key is no new one. -/
theorem Identified.known_ne (h : s.Identified) {k : RegKey} (hk : k ∈ s.heldKeys) (path : PyStr) :
    namedKey env.lc (.ok (some k)) ≠ namedKey env.lc (.ok (some ⟨s.nextId, path⟩)) := by
  intro heq
  have hpair := Option.some.inj (Except.ok.inj heq)
  have hid : k.id = s.nextId := (Prod.mk.inj hpair).1
  have := h.fresh k hk
  omega

theorem mem_heldKeys_of_getKeyFromPath {key : RegKey} (h : s.getKeyFromPath env p = some key) :
    key ∈ s.heldKeys := List.mem_append_left _ (mem_keys_of_getKeyFromPath h)

/-- A known key is the answer of an open of the path only when it is the known key of the path. -/
theorem Identified.named_known_iff (env : RegistryEnv) (h : s.Identified) {k : RegKey}
    (hk : k ∈ s.heldKeys) (q : PyStr) (create : Bool) :
    namedKey env.lc (.ok (some k)) = namedKey env.lc (s.openedKey env q create) ↔
      s.getKeyFromPath env q = some k := by
  constructor
  · intro heq
    cases hq : s.getKeyFromPath env q with
    | some l =>
      rw [openedKey_known hq] at heq
      rw [h.known_eq hk (mem_heldKeys_of_getKeyFromPath hq) heq]
    | none =>
      rcases openedKey_unknown create hq with hbad | ⟨rfl, hbad⟩ | hnew
      · rw [hbad.openedKey] at heq
        cases heq
      · rw [hbad.openedKey] at heq
        cases heq
      · rw [hnew] at heq
        exact absurd heq (h.known_ne hk _)
  · intro hq
    rw [openedKey_known hq]

/-- Opening two paths gives one key if they are the same path, and else only by chance. -/
theorem Identified.namedKey_iff (env : RegistryEnv) (h : s.Identified) (p q : PyStr) (create : Bool) :
    namedKey env.lc (s.openedKey env p create) = namedKey env.lc (s.openedKey env q create) ↔
      SamePath env.lc p q ∨ s.SameAnyway env p q create := by
  constructor
  · intro heq
    cases hp : s.getKeyFromPath env p with
    | some k =>
      rw [openedKey_known hp, h.named_known_iff env (mem_heldKeys_of_getKeyFromPath hp)] at heq
      exact Or.inr (Or.inl ⟨k, hp, heq⟩)
    | none =>
      cases hq : s.getKeyFromPath env q with
      | some l =>
        rw [openedKey_known hq, eq_comm, h.named_known_iff env (mem_heldKeys_of_getKeyFromPath hq)] at heq
        rw [hp] at heq
        cases heq
      | none =>
        rcases openedKey_unknown create hp with hpbad | ⟨rfl, hpbad⟩ | hpnew
        · rcases openedKey_unknown create hq with hqbad | ⟨rfl, hqbad⟩ | hqnew
          · exact Or.inr (Or.inr (Or.inr ⟨hpbad, hqbad⟩))
          · rw [hpbad.openedKey, hqbad.openedKey] at heq
            cases heq
          · rw [hpbad.openedKey, hqnew] at heq
            cases heq
        · rcases openedKey_unknown false hq with hqbad | ⟨_, hqbad⟩ | hqnew
          · rw [hpbad.openedKey, hqbad.openedKey] at heq
            cases heq
          · exact Or.inr (Or.inr (Or.inl ⟨rfl, hpbad, hqbad⟩))
          · rw [hpbad.openedKey, hqnew] at heq
            cases heq
        · rcases openedKey_unknown create hq with hqbad | ⟨rfl, hqbad⟩ | hqnew
          · rw [hpnew, hqbad.openedKey] at heq
            cases heq
          · rw [hpnew, hqbad.openedKey] at heq
            cases heq
          · rw [hpnew, hqnew] at heq
            exact Or.inl (Prod.mk.inj (Option.some.inj (Except.ok.inj heq))).2
  · rintro (hsame | hany)
    · exact namedKey_same hsame
    · exact namedKey_anyway hany

end RegistryManager

namespace RegistryManager

variable {env : RegistryEnv} {s s' m : RegistryManager} {path : PyStr}

theorem mem_heldKeys {k : RegKey} : k ∈ s.heldKeys ↔
    k ∈ s.keys ∨ k ∈ s.handles.map Prod.snd ∨ k ∈ s.predefinedKeys.map Prod.snd := by
  simp only [heldKeys, List.mem_append]

theorem Identified.mono (h : s.Identified) (hsub : s'.heldKeys ⊆ s.heldKeys)
    (hnext : s'.nextId = s.nextId) : s'.Identified where
  fresh k hk := hnext ▸ h.fresh k (hsub hk)
  once k hk l hl := h.once k (hsub hk) l (hsub hl)

theorem Identified.add (h : s.Identified) (path : PyStr)
    (hsub : ∀ k ∈ s'.heldKeys, k ∈ s.heldKeys ∨ k = ⟨s.nextId, path⟩)
    (hnext : s'.nextId = s.nextId + 1) : s'.Identified := by
  constructor
  · intro k hk
    rcases hsub k hk with hold | rfl
    · have := h.fresh k hold
      omega
    · dsimp only
      omega
  · intro k hk l hl hid
    rcases hsub k hk with hkold | rfl
    · rcases hsub l hl with hlold | rfl
      · exact h.once k hkold l hlold hid
      · have := h.fresh k hkold
        dsimp only at hid
        omega
    · rcases hsub l hl with hlold | rfl
      · have := h.fresh l hlold
        dsimp only at hid
        omega
      · rfl

theorem Resolved.identified {create : Bool} {key : RegKey} (h : Resolved env s path create key m)
    (hs : s.Identified) : m.Identified ∧ key ∈ m.heldKeys := by
  cases h with
  | known h => exact ⟨hs, mem_heldKeys_of_getKeyFromPath h⟩
  | added _ hk =>
    subst hk
    refine ⟨hs.add (normalizeRegPath env.lc path) ?_ rfl, by simp [heldKeys]⟩
    intro k hk
    simp only [heldKeys, List.mem_append, List.mem_singleton] at hk ⊢
    rcases hk with (hk | hk) | hk
    · exact Or.inl (Or.inl hk)
    · exact Or.inr hk
    · exact Or.inl (Or.inr hk)

theorem Identified.newHandle (h : m.Identified) {key : RegKey} (hk : key ∈ m.heldKeys) :
    (m.newHandle key).2.Identified := by
  refine h.mono ?_ rfl
  intro k hin
  simp only [RegistryManager.newHandle, heldKeys, List.map_cons, List.mem_append, List.mem_cons] at hin hk ⊢
  rcases hin with hin | (rfl | hin) | hin
  · exact Or.inl hin
  · exact hk
  · exact Or.inr (Or.inl hin)
  · exact Or.inr (Or.inr hin)

theorem closeKey_held (s : RegistryManager) (hnd : RegHandle) :
    (s.closeKey hnd).2.heldKeys ⊆ s.heldKeys ∧ (s.closeKey hnd).2.nextId = s.nextId := by
  unfold closeKey
  split
  next => exact ⟨List.Subset.refl _, rfl⟩
  next n =>
    split
    next => exact ⟨List.Subset.refl _, rfl⟩
    next =>
      refine ⟨fun k hk => ?_, rfl⟩
      have hsub := List.map_subset Prod.snd (@List.filter_sublist _ (fun h => h.1 != n)
        s.handles).subset
      rw [mem_heldKeys] at hk ⊢
      exact hk.imp_right (Or.imp_left fun hin => hsub hin)

theorem deleteKey_held (env : RegistryEnv) (s : RegistryManager) (hnd : RegHandle) :
    (s.deleteKey env hnd).2.heldKeys ⊆ s.heldKeys ∧ (s.deleteKey env hnd).2.nextId = s.nextId := by
  unfold deleteKey
  split
  next => exact ⟨List.Subset.refl _, rfl⟩
  next =>
    refine ⟨fun k hk => ?_, rfl⟩
    rw [mem_heldKeys] at hk ⊢
    exact hk.imp_left List.mem_of_mem_eraseP

theorem Identified.createKey (h : s.Identified) {key : RegKey}
    (hok : s.createKey env path = .ok (key, m)) : m.Identified ∧ key ∈ m.heldKeys :=
  (createKey_resolved hok).identified h

theorem Identified.openKey (h : s.Identified) {create : Bool} {hnd : Option RegHandle}
    (hok : s.openKey env path create = .ok (hnd, s')) : s'.Identified := by
  rcases openKey_resolved hok with ⟨_, rfl⟩ | ⟨key, m, hm, _, rfl⟩
  · exact h
  · obtain ⟨hm, hk⟩ := hm.identified h
    exact hm.newHandle hk

theorem Identified.step (h : s.Identified) (op : RegistryOp) : (s.step env op).Identified := by
  cases op with
  | createKey path =>
    rw [RegistryManager.step]
    split
    next => exact h
    next hok => exact (h.createKey hok).1
  | openKey path create =>
    rw [RegistryManager.step]
    split
    next => exact h
    next hok => exact h.openKey hok
  | deleteKey hnd =>
    obtain ⟨hsub, hnext⟩ := deleteKey_held env s hnd
    exact h.mono hsub hnext
  | closeKey hnd =>
    obtain ⟨hsub, hnext⟩ := closeKey_held s hnd
    exact h.mono hsub hnext

/-- The fixed keys keep their names. -/
def Predefined (s : RegistryManager) : Prop :=
  ∀ hk key, s.predefinedKeys.lookup hk = some key → key.path = hk.name

theorem Resolved.predefinedKeys {create : Bool} {key : RegKey} (h : Resolved env s path create key m) :
    m.predefinedKeys = s.predefinedKeys := by
  cases h <;> rfl

theorem step_predefinedKeys (env : RegistryEnv) (s : RegistryManager) (op : RegistryOp) :
    (s.step env op).predefinedKeys = s.predefinedKeys := by
  have hcases := step_cases env s op
  generalize s.step env op = s' at hcases ⊢
  cases hcases with
  | same => rfl
  | resolved _ h => exact h.predefinedKeys
  | opened _ h => exact h.predefinedKeys
  | deleted _ => rfl
  | closed => rfl

theorem hkeyPath_of_getKey (h : s.Predefined) {hnd : RegHandle} {key : RegKey}
    (hk : s.getKey hnd = some key) : s.hkeyPath hnd = some key.path := by
  cases hnd with
  | predefined hkey => exact congrArg some (h hkey key hk).symm
  | table n => rw [hkeyPath, hk, Option.map_some]

/-- What a run keeps. -/
structure NavInv (s : RegistryManager) : Prop where
  identified : s.Identified
  predefined : s.Predefined

theorem NavInv.step (h : s.NavInv) (op : RegistryOp) : (s.step env op).NavInv where
  identified := h.identified.step op
  predefined := by
    rw [Predefined, step_predefinedKeys]
    exact h.predefined

/-- What the loop over the predefined keys keeps. -/
structure InitInv (s : RegistryManager) : Prop where
  identified : s.Identified
  names : ∀ k ∈ s.keys, ∃ hk : Hkey, k.path = hk.name
  predefined : ∀ hk key, (hk, key) ∈ s.predefinedKeys → key.path = hk.name

theorem Hkey.lower_inj (lc : LowerCase) {hk hk' : Hkey} (h : lc.str hk.name = lc.str hk'.name) :
    hk = hk' := by
  rw [hk.lower, hk'.lower] at h
  revert h
  cases hk <;> cases hk' <;> decide

theorem InitInv.createKey (h : s.InitInv) {hk : Hkey} {key : RegKey}
    (hok : s.createKey env hk.name = .ok (key, m)) :
    ({ m with predefinedKeys := m.predefinedKeys ++ [(hk, key)] } : RegistryManager).InitInv := by
  obtain ⟨hident, hheld⟩ := h.identified.createKey hok
  have hres := createKey_resolved hok
  have hpath : key.path = hk.name := by
    cases hres with
    | known hknown =>
      obtain ⟨hin, hlow⟩ := mem_of_getKeyFromPath (hk.plain env) hknown
      obtain ⟨hk', heq⟩ := h.names key hin
      rw [heq, hk.normalize] at hlow
      rw [heq, Hkey.lower_inj env.lc hlow]
    | added _ hkey =>
      rw [hkey]
      exact hk.normalize _
  refine ⟨hident.mono ?_ rfl, ?_, ?_⟩
  · intro k hin
    simp only [heldKeys, List.map_append, List.map_cons, List.map_nil, List.mem_append,
      List.mem_singleton] at hin hheld ⊢
    rcases hin with hin | hin | hin | rfl
    · exact Or.inl hin
    · exact Or.inr (Or.inl hin)
    · exact Or.inr (Or.inr hin)
    · exact hheld
  · intro k hin
    cases hres with
    | known _ => exact h.names k hin
    | added _ hkey =>
      rcases List.mem_append.mp hin with hin | hin
      · exact h.names k hin
      · cases List.mem_singleton.mp hin
        exact ⟨hk, hpath⟩
  · intro hk' key' hin
    rcases List.mem_append.mp hin with hin | hin
    · rw [hres.predefinedKeys] at hin
      exact h.predefined hk' key' hin
    · cases List.mem_singleton.mp hin
      exact hpath

theorem InitInv.initKeys {hks : List Hkey} (h : s.InitInv) (hok : initKeys env s hks = .ok s') :
    s'.InitInv := by
  induction hks generalizing s with
  | nil =>
    cases hok
    exact h
  | cons hk hks ih =>
    rw [RegistryManager.initKeys] at hok
    split at hok
    next => cases hok
    next key m hm => exact ih (h.createKey hm) hok

theorem mem_of_lookup {hk : Hkey} {key : RegKey} {keys : List (Hkey × RegKey)}
    (h : keys.lookup hk = some key) : (hk, key) ∈ keys := by
  obtain ⟨l, l', rfl, _⟩ := List.lookup_eq_some_iff.mp h
  simp

theorem NavInv.init (hok : init env = .ok s) : s.NavInv := by
  have hempty : ({} : RegistryManager).InitInv :=
    ⟨⟨by simp [heldKeys], by simp [heldKeys]⟩, by simp, by simp⟩
  have h := hempty.initKeys hok
  exact ⟨h.identified, fun hk key hlook => h.predefined hk key (mem_of_lookup hlook)⟩

end RegistryManager

end Speakeasy
