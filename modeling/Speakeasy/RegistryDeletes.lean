import Speakeasy.RegistryMap

namespace Speakeasy

open RegistryManager

/-- The path of a key, or one below it. The key is given by the lower case of its path. -/
def AtOrBelow (lc : LowerCase) (key path : PyStr) : Prop :=
  lc.str path = key ∨ key ++ ['\\'] <+: lc.str path

instance (lc : LowerCase) (key path : PyStr) : Decidable (AtOrBelow lc key path) :=
  inferInstanceAs (Decidable (_ ∨ _))

/-- Neither a known key nor the configuration has a key or one below it. -/
structure Gone (env : RegistryEnv) (s : RegistryManager) (key : PyStr) : Prop where
  keys : ∀ k ∈ s.keys, ¬AtOrBelow env.lc key k.path
  config : ∀ c ∈ env.config, AtOrBelow env.lc key c.path → env.lc.str c.path ∈ s.deletedPaths

/-- A key that an open does not give and that no parent lists. -/
structure StaysDeleted (env : RegistryEnv) (s : RegistryManager) (key : PyStr) : Prop where
  notOpened : ∀ p, env.lc.str (normalizeRegPath env.lc p) = key →
    s.openKey env p false = .ok (none, s)
  notListed : ∀ parent : RegKey, '\u0130' ∉ parent.path → ∀ name,
    key = env.lc.str (rstripSep parent.path) ++ '\\' :: env.lc.str name →
    ∀ sub ∈ s.getSubkeys env parent, env.lc.str sub ≠ env.lc.str name

variable {env : RegistryEnv} {s : RegistryManager} {key : PyStr}

theorem AtOrBelow.trans {lc : LowerCase} {p q : PyStr} (hp : AtOrBelow lc key p)
    (hq : lc.str p ++ ['\\'] <+: lc.str q) : AtOrBelow lc key q := by
  rcases hp with heq | hbelow
  · exact Or.inr (heq ▸ hq)
  · exact Or.inr ((hbelow.trans (List.prefix_append ..)).trans hq)

theorem Gone.paths (h : Gone env s key) {q : PyStr} (hq : q ∈ s.getKeyPaths env) :
    ¬AtOrBelow env.lc key q := by
  intro hbelow
  rcases List.mem_append.mp hq with hq | hq
  · obtain ⟨k, hk, rfl⟩ := List.mem_map.mp hq
    exact h.keys k hk hbelow
  · obtain ⟨hq, hdel⟩ := List.mem_filter.mp hq
    obtain ⟨c, hc, rfl⟩ := List.mem_map.mp hq
    simp only [decide_not, Bool.not_eq_true', decide_eq_false_iff_not] at hdel
    exact hdel (h.config c hc hbelow)

theorem Gone.not_config (h : Gone env s key) {p : PyStr} (hp : AtOrBelow env.lc key p) :
    s.getKeyFromConfig env p = .ok false := by
  unfold getKeyFromConfig
  split
  next => rfl
  next hnot =>
    cases hf : env.config.find? fun c => decide (env.lc.str c.path = env.lc.str p) with
    | none => rfl
    | some c =>
      have heq : env.lc.str c.path = env.lc.str p := by simpa using List.find?_some hf
      have hat : AtOrBelow env.lc key c.path := by
        unfold AtOrBelow
        rw [heq]
        exact hp
      exact absurd (heq ▸ h.config c (List.mem_of_find?_eq_some hf) hat) hnot

theorem rstripSep_normalizeRegPath (lc : LowerCase) (p : PyStr) :
    rstripSep (normalizeRegPath lc p) = normalizeRegPath lc p := by
  unfold normalizeRegPath
  split
  next hnil =>
    subst hnil
    rfl
  next => exact List.rdropWhile_idempotent ..

theorem Gone.not_parent (h : Gone env s key) {p : PyStr}
    (hp : AtOrBelow env.lc key (normalizeRegPath env.lc p)) :
    s.isKeyAParentKey env (normalizeRegPath env.lc p) = false := by
  simp only [isKeyAParentKey, rstripSep_lower (rstripSep_normalizeRegPath env.lc p)]
  rw [List.any_eq_false]
  intro q hq hpre
  exact h.paths hq (hp.trans (by simpa using hpre))

theorem Gone.notOpened (h : Gone env s key) (hg : GlobFree key) {p : PyStr}
    (hp : env.lc.str (normalizeRegPath env.lc p) = key) : s.openKey env p false = .ok (none, s) := by
  have hat : AtOrBelow env.lc key (normalizeRegPath env.lc p) := Or.inl hp
  have hnone : s.getKeyFromPath env p = none := by
    rw [getKeyFromPath_of_globFree (hp ▸ hg), List.find?_eq_none]
    intro k hk heq
    exact h.keys k hk (Or.inl (by simpa [hp] using heq))
  simp only [openKey, getKeyFromPath_norm, hnone, h.not_config hat, h.not_parent hat]
  simp

/-- Of a deleted path, an open that gives nothing shows that nothing is left. -/
theorem gone_of_notOpened (hg : GlobFree key) (hdel : key ∈ s.deletedPaths) {p : PyStr}
    (hp : env.lc.str (normalizeRegPath env.lc p) = key)
    (h : s.openKey env p false = .ok (none, s)) : Gone env s key := by
  subst hp
  have hconfig : s.getKeyFromConfig env (normalizeRegPath env.lc p) = .ok false := by
    simp only [getKeyFromConfig, hdel, if_true]
  have hnone : s.getKeyFromPath env p = none := by
    cases hk : s.getKeyFromPath env p with
    | none => rfl
    | some k => simp [openKey, getKeyFromPath_norm, hk] at h
  have hparent : ∀ q ∈ s.getKeyPaths env, ¬env.lc.str (normalizeRegPath env.lc p) ++ ['\\'] <+: env.lc.str q := by
    intro q hq hpre
    have hany : s.isKeyAParentKey env (normalizeRegPath env.lc p) = true := by
      simp only [isKeyAParentKey, rstripSep_lower (rstripSep_normalizeRegPath env.lc p)]
      exact List.any_eq_true.mpr ⟨q, hq, by simpa using hpre⟩
    simp [openKey, getKeyFromPath_norm, hnone, hconfig, hany] at h
  constructor
  · rintro k hk (heq | hbelow)
    · rw [getKeyFromPath_of_globFree hg, List.find?_eq_none] at hnone
      exact hnone k hk (by simpa using heq)
    · exact hparent k.path (List.mem_append_left _ (List.mem_map_of_mem hk)) hbelow
  · rintro c hc (heq | hbelow)
    · exact heq ▸ hdel
    · by_contra hnot
      refine hparent c.path (List.mem_append_right _ (List.mem_filter.mpr ⟨?_, ?_⟩)) hbelow
      · exact List.mem_map_of_mem hc
      · simpa using hnot

theorem mem_subkeysLoop {lc : LowerCase} {parentPath sub : PyStr} {subkeys paths : List PyStr}
    (h : sub ∈ subkeysLoop lc parentPath subkeys paths) :
    sub ∈ subkeys ∨ ∃ q ∈ paths, lc.str parentPath <+: lc.str q ∧
      sub = (q.drop parentPath.length).takeWhile (· ≠ '\\') := by
  induction paths generalizing subkeys with
  | nil => exact Or.inl h
  | cons q paths ih =>
    have hrest : ∀ {subs : List PyStr}, sub ∈ subkeysLoop lc parentPath subs paths → sub ∈ subs ∨
        ∃ x ∈ q :: paths, lc.str parentPath <+: lc.str x ∧
          sub = (x.drop parentPath.length).takeWhile (· ≠ '\\') := by
      intro subs hin
      rcases ih hin with hin | ⟨x, hx, hx'⟩
      · exact Or.inl hin
      · exact Or.inr ⟨x, List.mem_cons_of_mem _ hx, hx'⟩
    rw [subkeysLoop] at h
    split at h
    next hpre =>
      dsimp only at h
      split at h
      next => exact hrest h
      next =>
        rcases hrest h with hin | hex
        · rcases List.mem_append.mp hin with hin | hin
          · exact Or.inl hin
          · exact Or.inr ⟨q, List.mem_cons_self, hpre, List.mem_singleton.mp hin⟩
        · exact Or.inr hex
    next => exact hrest h

/-- The component of a path where it continues the one of the parent. -/
theorem atOrBelow_of_component {lc : LowerCase} {parent name q : PyStr} (hp : '\u0130' ∉ parent)
    (hq : '\u0130' ∉ q) (hpre : lc.str (parent ++ ['\\']) <+: lc.str q)
    (hname : lc.str ((q.drop (parent.length + 1)).takeWhile (· ≠ '\\')) = lc.str name) :
    AtOrBelow lc (lc.str parent ++ '\\' :: lc.str name) q := by
  obtain ⟨w, hw⟩ := hpre
  rw [lc.sep, lc.nil, List.append_assoc] at hw
  obtain ⟨u, v, rfl, hlen, hu, -⟩ := lc.split hp hq hw.symm
  have hdrop : (u ++ '\\' :: v).drop (parent.length + 1) = v := by
    rw [← hlen, ← List.drop_drop, List.drop_left]
    rfl
  rw [hdrop] at hname
  have hv := List.takeWhile_append_dropWhile (p := (· ≠ '\\')) (l := v)
  rw [AtOrBelow, lc.sep, hu, ← hname]
  cases hrest : v.dropWhile (· ≠ '\\') with
  | nil =>
    rw [hrest, List.append_nil] at hv
    exact Or.inl (by rw [hv])
  | cons c rest =>
    have hc : c = '\\' := by
      have hhead := List.head?_dropWhile_not (fun c => decide (c ≠ '\\')) v
      rw [hrest] at hhead
      simpa using hhead
    subst hc
    rw [hrest] at hv
    refine Or.inr ⟨lc.str rest, ?_⟩
    nth_rewrite 2 [← hv]
    rw [lc.sep]
    simp

theorem Gone.notListed (h : Gone env s key) (hpaths : ∀ q ∈ s.getKeyPaths env, '\u0130' ∉ q)
    {parent : RegKey} (hparent : '\u0130' ∉ parent.path) {name : PyStr}
    (hkey : key = env.lc.str (rstripSep parent.path) ++ '\\' :: env.lc.str name) {sub : PyStr}
    (hsub : sub ∈ s.getSubkeys env parent) : env.lc.str sub ≠ env.lc.str name := by
  intro heq
  rcases mem_subkeysLoop hsub with hin | ⟨q, hq, hpre, rfl⟩
  · cases hin
  · have hstrip : '\u0130' ∉ rstripSep parent.path :=
      fun hin => hparent ((List.rdropWhile_prefix _ _).subset hin)
    rw [List.length_append] at heq
    refine h.paths hq ?_
    rw [hkey]
    exact atOrBelow_of_component hstrip (hpaths q hq) hpre heq

/-- A delete that leaves nothing of its key, for a key that no other path matches. -/
structure DeleteClears (env : RegistryEnv) (s : RegistryManager) (k : RegKey) : Prop where
  plain : GlobFree (env.lc.str k.path)
  keys : ∀ l ∈ s.keys, l.id ≠ k.id → ¬AtOrBelow env.lc (env.lc.str k.path) l.path
  config : ∀ c ∈ env.config, env.lc.str k.path ++ ['\\'] <+: env.lc.str c.path →
    env.lc.str c.path ∈ s.deletedPaths

theorem DeleteClears.gone {k : RegKey} (h : DeleteClears env s k) (hs : s.Numbered) :
    Gone env { s with
      keys := s.keys.eraseP fun l => l.id == k.id
      deletedPaths := env.lc.str k.path :: s.deletedPaths } (env.lc.str k.path) where
  keys l hl := by
    obtain ⟨hin, hne⟩ := hs.ne_of_mem_eraseP hl
    exact h.keys l hin hne
  config c hc hat := by
    rcases hat with heq | hbelow
    · rw [heq]
      exact List.mem_cons_self
    · exact List.mem_cons_of_mem _ (h.config c hc hbelow)

/-- For a key that no other path matches, the condition is exact: an open right after the delete gives
nothing if and only if the delete clears the key. -/
theorem deleteClears_iff_notOpened (hs : s.Numbered) {k : RegKey} (hg : GlobFree (env.lc.str k.path))
    {p : PyStr} (hp : env.lc.str (normalizeRegPath env.lc p) = env.lc.str k.path) {hnd : RegHandle}
    (hk : s.getKey hnd = some k) :
    DeleteClears env s k ↔
      (s.deleteKey env hnd).2.openKey env p false = .ok (none, (s.deleteKey env hnd).2) := by
  simp only [deleteKey, hk]
  constructor
  · exact fun h => (h.gone hs).notOpened hg hp
  · intro h
    have hgone := gone_of_notOpened hg List.mem_cons_self hp h
    refine ⟨hg, fun l hl hne => hgone.keys l ?_, fun c hc hbelow => ?_⟩
    · exact (List.mem_eraseP_of_neg (by simp [hne])).mpr hl
    · rcases List.mem_cons.mp (hgone.config c hc (Or.inr hbelow)) with heq | hin
      · have hlen := hbelow.length_le
        simp only [heq, List.length_append, List.length_singleton] at hlen
        omega
      · exact hin

/-- Whether a call may make the key of a path again, or one below it. -/
def RegistryOp.recreates (env : RegistryEnv) (op : RegistryOp) (key : PyStr) : Prop :=
  ∃ x ∈ op.path, x.2 = true ∧ AtOrBelow env.lc key (normalizeRegPath env.lc x.1)

instance (env : RegistryEnv) (op : RegistryOp) (key : PyStr) : Decidable (op.recreates env key) :=
  inferInstanceAs (Decidable (∃ x ∈ op.path, _))

theorem Gone.resolved (h : Gone env s key) {path : PyStr} {create : Bool} {k : RegKey}
    {m : RegistryManager} (hm : Resolved env s path create k m)
    (hno : create = true → ¬AtOrBelow env.lc key (normalizeRegPath env.lc path)) : Gone env m key := by
  cases hm with
  | known => exact h
  | added hnone hk hd why =>
    subst hk
    have hnot : ¬AtOrBelow env.lc key (normalizeRegPath env.lc path) := by
      intro hat
      rcases why with hc | hconfig | hparent
      · exact hno hc hat
      · rw [h.not_config hat] at hconfig
        cases hconfig
      · rw [h.not_parent hat] at hparent
        cases hparent
    constructor
    · intro l hl
      rcases List.mem_append.mp hl with hl | hl
      · exact h.keys l hl
      · cases List.mem_singleton.mp hl
        exact hnot
    · intro c hc hat
      have hin := h.config c hc hat
      rcases hd with rfl | rfl
      · exact hin
      · refine List.mem_filter.mpr ⟨hin, ?_⟩
        have hne : env.lc.str c.path ≠ env.lc.str (normalizeRegPath env.lc path) := by
          intro heq
          unfold AtOrBelow at hat hnot
          exact hnot (heq ▸ hat)
        simpa using hne

theorem RegistryManager.Numbered.step (h : s.Numbered) (op : RegistryOp) :
    (s.step env op).Numbered := by
  have hresolved : ∀ {path : PyStr} {create : Bool} {k : RegKey} {m : RegistryManager},
      Resolved env s path create k m → m.Numbered := by
    intro path create k m hm
    cases hm with
    | known => exact h
    | added hnone hk =>
      subst hk
      exact h.append rfl rfl
  have hcases := step_cases env s op
  generalize s.step env op = s' at hcases ⊢
  cases hcases with
  | same => exact h
  | resolved hp hm => exact hresolved hm
  | opened hp hm =>
    have hn := hresolved hm
    exact ⟨hn.fresh, hn.once⟩
  | deleted hk => exact h.sublist List.eraseP_sublist rfl
  | closed => exact ⟨h.fresh, h.once⟩

theorem step_paths {Q : PyStr → Prop} (h : ∀ k ∈ s.keys, Q k.path) {op : RegistryOp}
    (hop : ∀ path create, op.path = some (path, create) → Q (normalizeRegPath env.lc path)) :
    ∀ k ∈ (s.step env op).keys, Q k.path := by
  have hresolved : ∀ {path : PyStr} {create : Bool} {k : RegKey} {m : RegistryManager},
      op.path = some (path, create) → Resolved env s path create k m → ∀ k ∈ m.keys, Q k.path := by
    intro path create k m hp hm
    cases hm with
    | known => exact h
    | added hnone hk =>
      subst hk
      intro l hl
      rcases List.mem_append.mp hl with hl | hl
      · exact h l hl
      · cases List.mem_singleton.mp hl
        exact hop path create hp
  have hcases := step_cases env s op
  generalize s.step env op = s' at hcases ⊢
  cases hcases with
  | same => exact h
  | resolved hp hm => exact hresolved hp hm
  | opened hp hm =>
    have hall := hresolved hp hm
    exact hall
  | deleted hk => exact fun l hl => h l (List.mem_of_mem_eraseP hl)
  | closed => exact h

/-- A deleted key stays away until a call makes it or a key below it. -/
theorem Gone.step (h : Gone env s key) {op : RegistryOp} (hno : ¬op.recreates env key) :
    Gone env (s.step env op) key := by
  have hcreate : ∀ {path : PyStr} {create : Bool}, op.path = some (path, create) → create = true →
      ¬AtOrBelow env.lc key (normalizeRegPath env.lc path) := by
    intro path create hp hc hat
    subst hc
    exact hno ⟨(path, true), hp, rfl, hat⟩
  have hcases := step_cases env s op
  generalize s.step env op = s' at hcases ⊢
  cases hcases with
  | same => exact h
  | resolved hp hm => exact h.resolved hm (hcreate hp)
  | opened hp hm =>
    have hg := h.resolved hm (hcreate hp)
    exact ⟨hg.keys, hg.config⟩
  | deleted hk =>
    exact ⟨fun l hl => h.keys l (List.mem_of_mem_eraseP hl),
      fun c hc hat => List.mem_cons_of_mem _ (h.config c hc hat)⟩
  | closed => exact ⟨h.keys, h.config⟩

/-- A run with the keys that were deleted, by the lower case of their paths, and that no later call
made again. -/
structure DeleteSession where
  mgr : RegistryManager
  gone : List PyStr

namespace DeleteSession

def deletes (env : RegistryEnv) (s : RegistryManager) : RegistryOp → List PyStr
  | .deleteKey hnd => ((s.getKey hnd).map fun k => env.lc.str k.path).toList
  | .createKey _ => []
  | .openKey _ _ => []
  | .closeKey _ => []

def step (env : RegistryEnv) (t : DeleteSession) (op : RegistryOp) : DeleteSession :=
  ⟨t.mgr.step env op, deletes env t.mgr op ++ t.gone.filter fun key => ¬op.recreates env key⟩

def run (env : RegistryEnv) (t : DeleteSession) (ops : List RegistryOp) : DeleteSession :=
  ops.foldl (step env) t

/-- A call that deletes clears its key. Each path that a call gives has a lower case of its length. -/
structure Meets (env : RegistryEnv) (t : DeleteSession) (op : RegistryOp) : Prop where
  path : ∀ path create, op.path = some (path, create) → '\u0130' ∉ path
  delete : ∀ hnd k, op = .deleteKey hnd → t.mgr.getKey hnd = some k → DeleteClears env t.mgr k

inductive Reach (env : RegistryEnv) (s : RegistryManager) : DeleteSession → Prop
  | start : Reach env s ⟨s, []⟩
  | next {t : DeleteSession} {op : RegistryOp} (h : Reach env s t) (ho : t.Meets env op) :
      Reach env s (t.step env op)

end DeleteSession

structure DeleteInv (env : RegistryEnv) (t : DeleteSession) : Prop where
  numbered : t.mgr.Numbered
  paths : ∀ k ∈ t.mgr.keys, '\u0130' ∉ k.path
  gone : ∀ key ∈ t.gone, GlobFree key ∧ Gone env t.mgr key

theorem DeleteInv.step {t : DeleteSession} (h : DeleteInv env t) {op : RegistryOp}
    (ho : t.Meets env op) : DeleteInv env (t.step env op) where
  numbered := h.numbered.step op
  paths := step_paths (Q := fun path => '\u0130' ∉ path) h.paths fun path create hp =>
    not_mem_normalizeRegPath (by decide) (ho.path path create hp)
  gone := by
    intro key hkey
    rcases List.mem_append.mp hkey with hkey | hkey
    · cases op with
      | deleteKey hnd =>
        simp only [DeleteSession.deletes, Option.mem_toList, Option.map_eq_some_iff] at hkey
        obtain ⟨k, hk, rfl⟩ := hkey
        have hclears := ho.delete hnd k rfl hk
        refine ⟨hclears.plain, ?_⟩
        have hgone := hclears.gone h.numbered
        simp only [DeleteSession.step, RegistryManager.step, deleteKey, hk]
        exact hgone
      | createKey => cases hkey
      | openKey => cases hkey
      | closeKey => cases hkey
    · obtain ⟨hin, hno⟩ := List.mem_filter.mp hkey
      obtain ⟨hg, hgone⟩ := h.gone key hin
      exact ⟨hg, hgone.step (by simpa using hno)⟩

theorem deleteInv_start {s : RegistryManager} (hok : RegistryManager.init env = .ok s) :
    DeleteInv env ⟨s, []⟩ where
  numbered := (MapInv.start hok).numbered
  paths := initKeys_forall (Q := fun path => '\u0130' ∉ path) (by simp) (fun hk =>
    not_mem_normalizeRegPath (by decide) (by cases hk <;> decide)) hok
  gone := by simp

/-- When each delete clears its key, the key is not opened and not listed until a call makes it or a
key below it. -/
theorem registry_run_staysDeleted {s : RegistryManager} (hok : RegistryManager.init env = .ok s)
    (hc : ∀ c ∈ env.config, '\u0130' ∉ c.path) {t : DeleteSession}
    (h : DeleteSession.Reach env s t) : ∀ key ∈ t.gone, StaysDeleted env t.mgr key := by
  have hinv : DeleteInv env t := by
    induction h with
    | start => exact deleteInv_start hok
    | next _ ho ih => exact ih.step ho
  intro key hkey
  obtain ⟨hg, hgone⟩ := hinv.gone key hkey
  refine ⟨fun p hp => hgone.notOpened hg hp, fun parent hparent name heq sub hsub => ?_⟩
  refine hgone.notListed (fun q hq => ?_) hparent heq hsub
  rcases List.mem_append.mp hq with hq | hq
  · obtain ⟨k, hk, rfl⟩ := List.mem_map.mp hq
    exact hinv.paths k hk
  · obtain ⟨c, hin, rfl⟩ := List.mem_map.mp (List.mem_filter.mp hq).1
    exact hc c hin

def configRegistry : RegistryEnv := ⟨asciiLower, [⟨"HKEY_LOCAL_MACHINE\\a".toList, true⟩]⟩

def openThenDelete : List RegistryOp :=
  [.openKey "HKLM\\A".toList false, .deleteKey (.table 0)]

theorem registry_run_staysDeleted_openThenDelete :
    StaysDeleted configRegistry (DeleteSession.run configRegistry ⟨firstKeys, []⟩ openThenDelete).mgr
      "hkey_local_machine\\a".toList := by
  have hreach : DeleteSession.Reach configRegistry firstKeys
      (DeleteSession.run configRegistry ⟨firstKeys, []⟩ openThenDelete) := by
    refine .next (.next .start ⟨?_, ?_⟩) ⟨?_, ?_⟩
    · intro path create hp
      cases hp
      decide
    · intro hnd k heq
      cases heq
    · intro path create hp
      cases hp
    · intro hnd k heq hk
      cases heq
      have hkey : (DeleteSession.step configRegistry ⟨firstKeys, []⟩
          (.openKey "HKLM\\A".toList false)).mgr.getKey (.table 0) =
            some ⟨4, "HKEY_LOCAL_MACHINE\\A".toList⟩ := by decide
      rw [hkey] at hk
      cases hk
      exact ⟨by decide, by decide, by decide⟩
  exact registry_run_staysDeleted rfl (by decide) hreach _ (by decide)

def childRegistry : RegistryEnv := ⟨asciiLower, [⟨"HKEY_LOCAL_MACHINE\\a\\b".toList, true⟩]⟩

/-- A key that exists as the parent of a key of the configuration is opened again after its delete. -/
theorem registry_run_reappears : ¬∀ ops : List RegistryOp,
    ∀ key ∈ (DeleteSession.run childRegistry ⟨firstKeys, []⟩ ops).gone,
      StaysDeleted childRegistry (DeleteSession.run childRegistry ⟨firstKeys, []⟩ ops).mgr key := by
  intro h
  have hstays := h openThenDelete "hkey_local_machine\\a".toList (by decide)
  have hopen := hstays.notOpened "HKLM\\A".toList (by decide)
  have hsome : ((DeleteSession.run childRegistry ⟨firstKeys, []⟩ openThenDelete).mgr.openKey
      childRegistry "HKLM\\A".toList false).toOption.map Prod.fst = some (some (.table 1)) := by
    decide
  rw [hopen] at hsome
  cases hsome

end Speakeasy
