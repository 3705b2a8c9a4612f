import Speakeasy.RegistryManager
import Mathlib.Data.List.Nodup

namespace Speakeasy

/-- A run of the registry with the paths that its key objects were made for, and the objects that
were deleted. -/
structure RegistrySession where
  mgr : RegistryManager
  made : List (Nat × PyStr)
  deleted : List Nat

namespace RegistrySession

/-- The predefined keys are made for their names. -/
def start (s : RegistryManager) : RegistrySession :=
  ⟨s, s.keys.map fun k => (k.id, k.path), []⟩

/-- The object that a call makes takes the next number. -/
def makes (s s' : RegistryManager) (op : RegistryOp) : List (Nat × PyStr) :=
  match op.path with
  | some (path, _) => if s'.nextId = s.nextId then [] else [(s.nextId, path)]
  | none => []

def deletes (s : RegistryManager) : RegistryOp → List Nat
  | .deleteKey hnd => ((s.getKey hnd).map RegKey.id).toList
  | .createKey _ => []
  | .openKey _ _ => []
  | .closeKey _ => []

def step (env : RegistryEnv) (t : RegistrySession) (op : RegistryOp) : RegistrySession :=
  let mgr := t.mgr.step env op
  ⟨mgr, makes t.mgr mgr op ++ t.made, deletes t.mgr op ++ t.deleted⟩

def run (env : RegistryEnv) (t : RegistrySession) (ops : List RegistryOp) : RegistrySession :=
  ops.foldl (step env) t

end RegistrySession

/-- The registry is a map from the paths that `ok` admits. -/
structure RegistryIsMap (ok : PyStr → Prop) (env : RegistryEnv) (t : RegistrySession) : Prop where
  found : ∀ p, ok p → ∀ k, t.mgr.getKeyFromPath env p = some k →
    ∀ q, (k.id, q) ∈ t.made → SamePath env.lc p q
  opened : ∀ p, ok p → ∀ create hnd s k, t.mgr.openKey env p create = .ok (some hnd, s) →
    s.getKey hnd = some k → ∀ q, (k.id, q) ∈ t.made → SamePath env.lc p q
  kept : ∀ i q, (i, q) ∈ t.made → i ∉ t.deleted → ∀ p, ok p → SamePath env.lc p q →
    ∃ k, t.mgr.getKeyFromPath env p = some k ∧ k.id = i
  single : (t.mgr.keys.map fun k => env.lc.str k.path).Nodup

/-- A path that `fnmatch` compares character by character. -/
def PlainPath (env : RegistryEnv) (path : PyStr) : Prop :=
  GlobFree (env.lc.str (normalizeRegPath env.lc path))

instance (env : RegistryEnv) (path : PyStr) : Decidable (PlainPath env path) :=
  inferInstanceAs (Decidable (GlobFree _))

structure MapInv (env : RegistryEnv) (t : RegistrySession) : Prop where
  numbered : t.mgr.Numbered
  paths : (t.mgr.keys.map fun k => env.lc.str k.path).Nodup
  made_fresh : ∀ i q, (i, q) ∈ t.made → i < t.mgr.nextId
  made_path : ∀ i q, (i, q) ∈ t.made → ∀ k ∈ t.mgr.keys, k.id = i →
    env.lc.str k.path = env.lc.str (normalizeRegPath env.lc q)
  made_kept : ∀ i q, (i, q) ∈ t.made → i ∉ t.deleted → ∃ k ∈ t.mgr.keys, k.id = i

variable {env : RegistryEnv} {t : RegistrySession}

open RegistryManager

theorem mem_of_getKeyFromPath {s : RegistryManager} {p : PyStr} {k : RegKey} (hp : PlainPath env p)
    (h : s.getKeyFromPath env p = some k) :
    k ∈ s.keys ∧ env.lc.str k.path = env.lc.str (normalizeRegPath env.lc p) := by
  rw [getKeyFromPath_of_globFree hp] at h
  exact ⟨List.mem_of_find?_eq_some h, by simpa using List.find?_some h⟩

theorem MapInv.getKeyFromPath (h : MapInv env t) {p : PyStr} (hp : PlainPath env p) {k : RegKey}
    (hk : k ∈ t.mgr.keys) (heq : env.lc.str k.path = env.lc.str (normalizeRegPath env.lc p)) :
    t.mgr.getKeyFromPath env p = some k := by
  cases hf : t.mgr.getKeyFromPath env p with
  | none =>
    rw [getKeyFromPath_of_globFree hp, List.find?_eq_none] at hf
    exact absurd (by simpa using heq) (hf k hk)
  | some l =>
    obtain ⟨hl, hleq⟩ := mem_of_getKeyFromPath hp hf
    rw [List.inj_on_of_nodup_map h.paths hl hk (hleq.trans heq.symm)]

theorem MapInv.not_made (h : MapInv env t) (q : PyStr) : (t.mgr.nextId, q) ∉ t.made :=
  fun hin => Nat.lt_irrefl _ (h.made_fresh _ q hin)

/-- A new object takes the next number, and nothing else becomes known. -/
theorem MapInv.added (h : MapInv env t) {p : PyStr} (hp : PlainPath env p)
    (hnone : t.mgr.getKeyFromPath env p = none) {mgr : RegistryManager}
    (hkeys : mgr.keys = t.mgr.keys ++ [⟨t.mgr.nextId, normalizeRegPath env.lc p⟩])
    (hnext : mgr.nextId = t.mgr.nextId + 1) :
    MapInv env ⟨mgr, (t.mgr.nextId, p) :: t.made, t.deleted⟩ := by
  have hnew : ∀ k ∈ t.mgr.keys, env.lc.str k.path ≠ env.lc.str (normalizeRegPath env.lc p) := by
    intro k hk heq
    rw [getKeyFromPath_of_globFree hp, List.find?_eq_none] at hnone
    exact hnone k hk (by simpa using heq)
  have hmem : ∀ k ∈ mgr.keys, k ∈ t.mgr.keys ∨ k = ⟨t.mgr.nextId, normalizeRegPath env.lc p⟩ := by
    intro k hk
    simpa [hkeys] using hk
  constructor
  · exact h.numbered.append hkeys hnext
  · simp only [hkeys, List.map_append, List.map_cons, List.map_nil]
    refine List.nodup_append.mpr ⟨h.paths, by simp, ?_⟩
    intro a ha b hb heq
    obtain ⟨k, hk, rfl⟩ := List.mem_map.mp ha
    cases List.mem_singleton.mp hb
    exact hnew k hk heq
  · intro i q hin
    rcases List.mem_cons.mp hin with heq | hin
    · cases heq
      dsimp only
      omega
    · have := h.made_fresh i q hin
      dsimp only
      omega
  · intro i q hin k hk hi
    rcases List.mem_cons.mp hin with heq | hin
    · cases heq
      rcases hmem k hk with hk | rfl
      · have := h.numbered.fresh k hk
        omega
      · rfl
    · have hlt := h.made_fresh i q hin
      rcases hmem k hk with hk | rfl
      · exact h.made_path i q hin k hk hi
      · dsimp only at hi
        omega
  · intro i q hin hdel
    rcases List.mem_cons.mp hin with heq | hin
    · cases heq
      exact ⟨⟨t.mgr.nextId, normalizeRegPath env.lc p⟩, by simp [hkeys], rfl⟩
    · obtain ⟨k, hk, hi⟩ := h.made_kept i q hin hdel
      exact ⟨k, by simp [hkeys, hk], hi⟩

/-- What neither the known keys nor the next number show changes nothing. -/
theorem MapInv.congr (h : MapInv env t) {mgr : RegistryManager} {deleted : List Nat}
    (hkeys : mgr.keys = t.mgr.keys) (hnext : mgr.nextId = t.mgr.nextId)
    (hdel : t.deleted ⊆ deleted) : MapInv env ⟨mgr, t.made, deleted⟩ := by
  obtain ⟨numbered, paths, made_fresh, made_path, made_kept⟩ := h
  rw [← hkeys] at paths made_path made_kept
  rw [← hnext] at made_fresh
  exact ⟨numbered.sublist (hkeys ▸ List.Sublist.refl _) hnext, paths, made_fresh, made_path,
    fun i q hin hnot => made_kept i q hin fun hd => hnot (hdel hd)⟩

theorem MapInv.deleteKey (h : MapInv env t) (id : Nat) {mgr : RegistryManager}
    (hkeys : mgr.keys = t.mgr.keys.eraseP fun k => k.id == id)
    (hnext : mgr.nextId = t.mgr.nextId) : MapInv env ⟨mgr, t.made, id :: t.deleted⟩ := by
  have hsub : mgr.keys.Sublist t.mgr.keys := hkeys ▸ List.eraseP_sublist
  constructor
  · exact h.numbered.sublist hsub hnext
  · exact h.paths.sublist (hsub.map _)
  · intro i q hin
    have := h.made_fresh i q hin
    dsimp only
    omega
  · exact fun i q hin k hk => h.made_path i q hin k (hsub.subset hk)
  · intro i q hin hdel
    have hne : i ≠ id := fun he => hdel (he ▸ List.mem_cons_self)
    obtain ⟨k, hk, hi⟩ := h.made_kept i q hin fun hd => hdel (List.mem_cons_of_mem _ hd)
    refine ⟨k, ?_, hi⟩
    rw [hkeys]
    exact (List.mem_eraseP_of_neg (by simp [hi, hne])).mpr hk

theorem MapInv.step (h : MapInv env t) {op : RegistryOp}
    (hop : ∀ p create, op.path = some (p, create) → PlainPath env p) : MapInv env (t.step env op) := by
  have hcases := step_cases env t.mgr op
  simp only [RegistrySession.step]
  generalize t.mgr.step env op = mgr at hcases ⊢
  have hsame : ∀ {mgr : RegistryManager}, mgr.keys = t.mgr.keys → mgr.nextId = t.mgr.nextId →
      MapInv env ⟨mgr, RegistrySession.makes t.mgr mgr op ++ t.made,
        RegistrySession.deletes t.mgr op ++ t.deleted⟩ := by
    intro mgr hkeys hnext
    have hmakes : RegistrySession.makes t.mgr mgr op = [] := by
      unfold RegistrySession.makes
      split
      next => exact if_pos hnext
      next => rfl
    rw [hmakes]
    exact h.congr hkeys hnext (List.subset_append_right ..)
  have hresolved : ∀ {p : PyStr} {create : Bool} {key : RegKey} {m mgr : RegistryManager},
      op.path = some (p, create) → Resolved env t.mgr p create key m →
      mgr.keys = m.keys → mgr.nextId = m.nextId →
      MapInv env ⟨mgr, RegistrySession.makes t.mgr mgr op ++ t.made,
        RegistrySession.deletes t.mgr op ++ t.deleted⟩ := by
    intro p create key m mgr hp hm hkeys hnext
    cases hm with
    | known => exact hsame hkeys hnext
    | added hnone hk =>
      subst hk
      have hmakes : RegistrySession.makes t.mgr mgr op = [(t.mgr.nextId, p)] := by
        simp [RegistrySession.makes, hp, hnext]
      have hdeletes : RegistrySession.deletes t.mgr op = [] := by
        cases op with
        | createKey => rfl
        | openKey => rfl
        | deleteKey => cases hp
        | closeKey => cases hp
      rw [hmakes, hdeletes]
      exact h.added (hop p create hp) hnone hkeys hnext
  cases hcases with
  | same => exact hsame rfl rfl
  | resolved hp hm => exact hresolved hp hm rfl rfl
  | opened hp hm => exact hresolved hp hm rfl rfl
  | deleted hk =>
    simp only [RegistrySession.makes, RegistryOp.path, RegistrySession.deletes, hk]
    exact h.deleteKey _ rfl rfl
  | closed => exact hsame rfl rfl

theorem MapInv.run (h : MapInv env t) {ops : List RegistryOp}
    (hops : ∀ op ∈ ops, ∀ p create, op.path = some (p, create) → PlainPath env p) :
    MapInv env (t.run env ops) := by
  induction ops generalizing t with
  | nil => exact h
  | cons op ops ih =>
    exact ih (h.step (hops op List.mem_cons_self)) fun o ho => hops o (List.mem_cons_of_mem _ ho)

theorem MapInv.isMap (h : MapInv env t) : RegistryIsMap (PlainPath env) env t where
  found p hp k hk q hq := by
    obtain ⟨hin, heq⟩ := mem_of_getKeyFromPath hp hk
    exact heq.symm.trans (h.made_path _ q hq k hin rfl)
  opened p hp create hnd s k hopen hk q hq := by
    rcases openKey_resolved hopen with ⟨hn, _⟩ | ⟨key, m, hm, heq, rfl⟩
    · cases hn
    · cases heq
      rw [getKey_newHandle] at hk
      cases hk
      cases hm with
      | known hf =>
        obtain ⟨hin, heq⟩ := mem_of_getKeyFromPath hp hf
        exact heq.symm.trans (h.made_path _ q hq _ hin rfl)
      | added hnone hkey =>
        subst hkey
        exact absurd hq (h.not_made q)
  kept i q hin hdel p hp hpq := by
    obtain ⟨k, hk, hi⟩ := h.made_kept i q hin hdel
    exact ⟨k, h.getKeyFromPath hp hk ((h.made_path i q hin k hk hi).trans hpq.symm), hi⟩
  single := h.paths

theorem Hkey.lower (lc : LowerCase) (hk : Hkey) : lc.str hk.name = hk.name.map Char.toLower := by
  apply lc.ascii
  apply forall_lt_of_all
  cases hk <;> decide

theorem Hkey.normalize (lc : LowerCase) (hk : Hkey) : normalizeRegPath lc hk.name = hk.name := by
  have hreplaced : Replaced lc hk.name := by
    constructor
    · rw [hk.lower]
      cases hk <;> decide
    · rw [hk.lower]
      cases hk <;> decide
  rw [hreplaced.normalizeRegPath]
  cases hk <;> decide

theorem Hkey.plain (env : RegistryEnv) (hk : Hkey) : PlainPath env hk.name := by
  rw [PlainPath, hk.normalize, hk.lower]
  cases hk <;> decide

theorem MapInv.createKey (h : MapInv env t) {p : PyStr} (hp : PlainPath env p) {key : RegKey}
    {s : RegistryManager} (hok : t.mgr.createKey env p = .ok (key, s)) :
    ∃ made, MapInv env ⟨s, made, t.deleted⟩ := by
  cases createKey_resolved hok with
  | known => exact ⟨_, h.congr rfl rfl (List.Subset.refl _)⟩
  | added hnone hk =>
    subst hk
    exact ⟨_, h.added hp hnone rfl rfl⟩

/-- What holds of the path of each predefined key and of what a run makes holds of every key. -/
theorem createKey_forall {Q : PyStr → Prop} {s s' : RegistryManager} {p : PyStr} {key : RegKey}
    (h : ∀ k ∈ s.keys, Q k.path) (hp : Q (normalizeRegPath env.lc p))
    (hok : s.createKey env p = .ok (key, s')) : ∀ k ∈ s'.keys, Q k.path := by
  cases createKey_resolved hok with
  | known => exact h
  | added hnone hk =>
    subst hk
    intro k hin
    rcases List.mem_append.mp hin with hin | hin
    · exact h k hin
    · cases List.mem_singleton.mp hin
      exact hp

theorem initKeys_forall {Q : PyStr → Prop} {s s' : RegistryManager} (h : ∀ k ∈ s.keys, Q k.path)
    (hQ : ∀ hk : Hkey, Q (normalizeRegPath env.lc hk.name)) {hks : List Hkey}
    (hok : RegistryManager.initKeys env s hks = .ok s') : ∀ k ∈ s'.keys, Q k.path := by
  induction hks generalizing s with
  | nil =>
    cases hok
    exact h
  | cons hk hks ih =>
    rw [RegistryManager.initKeys] at hok
    split at hok
    next => cases hok
    next key m hm =>
      have hm : ∀ k ∈ m.keys, Q k.path := createKey_forall h (hQ hk) hm
      refine ih ?_ hok
      exact hm

theorem MapInv.initKeys {s s' : RegistryManager} {made : List (Nat × PyStr)} {deleted : List Nat}
    (h : MapInv env ⟨s, made, deleted⟩) {hks : List Hkey}
    (hok : RegistryManager.initKeys env s hks = .ok s') : ∃ made, MapInv env ⟨s', made, deleted⟩ := by
  induction hks generalizing s made with
  | nil =>
    cases hok
    exact ⟨_, h⟩
  | cons hk hks ih =>
    rw [RegistryManager.initKeys] at hok
    split at hok
    next => cases hok
    next key m hm =>
      obtain ⟨made', hmade⟩ := h.createKey (hk.plain env) hm
      have hnext : MapInv env ⟨{ m with predefinedKeys := m.predefinedKeys ++ [(hk, key)] }, made',
          deleted⟩ := hmade.congr rfl rfl (List.Subset.refl _)
      exact ih hnext hok

theorem MapInv.start {s : RegistryManager} (hok : RegistryManager.init env = .ok s) :
    MapInv env (RegistrySession.start s) := by
  have hempty : MapInv env ⟨{}, [], []⟩ :=
    ⟨⟨by simp, by simp⟩, by simp, by simp, by simp, by simp⟩
  obtain ⟨made, h⟩ := hempty.initKeys hok
  have hn : ∀ k ∈ s.keys, normalizeRegPath env.lc k.path = k.path :=
    initKeys_forall (Q := fun path => normalizeRegPath env.lc path = path) (by simp)
      (fun hk => normalizeRegPath_idem _ _) hok
  have hmade : ∀ i q, (i, q) ∈ (RegistrySession.start s).made → ∃ k ∈ s.keys, k.id = i ∧ k.path = q := by
    intro i q hin
    obtain ⟨k, hk, heq⟩ := List.mem_map.mp hin
    exact ⟨k, hk, Prod.mk.inj heq⟩
  refine ⟨h.numbered, h.paths, ?_, ?_, ?_⟩
  · intro i q hin
    obtain ⟨k, hk, rfl, _⟩ := hmade i q hin
    exact h.numbered.fresh k hk
  · intro i q hin k hk hi
    obtain ⟨l, hl, hli, rfl⟩ := hmade i q hin
    rw [List.inj_on_of_nodup_map h.numbered.once hk hl (hi.trans hli.symm), hn l hl]
  · intro i q hin _
    obtain ⟨k, hk, hi, _⟩ := hmade i q hin
    exact ⟨k, hk, hi⟩

/-- As long as no path has special characters, the registry is a map from paths to keys. -/
theorem registry_run_isMap {s : RegistryManager} (hok : RegistryManager.init env = .ok s)
    {ops : List RegistryOp}
    (hops : ∀ op ∈ ops, ∀ p create, op.path = some (p, create) → PlainPath env p) :
    RegistryIsMap (PlainPath env) env ((RegistrySession.start s).run env ops) :=
  ((MapInv.start hok).run hops).isMap

def plainRegistry : RegistryEnv := ⟨asciiLower, []⟩

def firstKeys : RegistryManager :=
  match RegistryManager.init plainRegistry with
  | .ok s => s
  | .error _ => {}

def createTwice : List RegistryOp :=
  [.createKey "HKLM\\a".toList, .openKey "hkey_local_machine\\A\\".toList true]

theorem registry_run_isMap_createTwice : RegistryIsMap (PlainPath plainRegistry) plainRegistry
    ((RegistrySession.start firstKeys).run plainRegistry createTwice) := by
  refine registry_run_isMap rfl ?_
  intro op hop p create hp
  have hplain : ∀ op ∈ createTwice, ∀ x ∈ op.path, PlainPath plainRegistry x.1 := by decide
  exact hplain op hop (p, create) hp

/-- A key whose name has a set is not found again. -/
theorem registry_run_not_isMap : ¬∀ ops : List RegistryOp, RegistryIsMap (fun _ => True) plainRegistry
    ((RegistrySession.start firstKeys).run plainRegistry ops) := by
  intro h
  obtain ⟨k, hk, _⟩ := (h [.createKey "HKLM\\a[b]".toList]).kept 4 "HKLM\\a[b]".toList
    (by decide) (by decide) "HKLM\\a[b]".toList trivial rfl
  have hnone : (((RegistrySession.start firstKeys).run plainRegistry
      [.createKey "HKLM\\a[b]".toList]).mgr.getKeyFromPath plainRegistry "HKLM\\a[b]".toList) = none := by
    decide
  rw [hnone] at hk
  cases hk

end Speakeasy
