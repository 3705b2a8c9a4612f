import Speakeasy.Directories
import Mathlib.Algebra.Order.BigOperators.Group.List
import Mathlib.Algebra.Order.Group.Nat

namespace Speakeasy

open ClosureLoops

namespace DirEnv

variable {env : DirEnv}

theorem seeds_keyLike {s : DirState} {key : PyStr} (h : key ∈ env.seeds s) : env.KeyLike key := by
  obtain ⟨d, _, hd⟩ := List.mem_map.mp h
  exact hd ▸ env.pathKey_keyLike d

theorem parentKey_keyLike (key : PyStr) : env.KeyLike (env.parentKey key) :=
  env.pathKey_keyLike (dirname key)

/-- The directories of a state are the known ones that are not removed. -/
theorem mem_getDirectories {fuel : Nat} {s : DirState} {dirs : List PyStr}
    (h : env.getDirectories fuel s = some dirs) (key : PyStr) :
    key ∈ dirs ↔ env.Known s key ∧ key ∉ s.removedDirs := by
  obtain ⟨keys, hkeys, hdirs⟩ := Option.map_eq_some_iff.mp h
  have hnone : ∀ y ∈ ([] : List PyStr), env.parentKey y ∈ ([] : List PyStr) := fun y hy =>
    absurd hy List.not_mem_nil
  have hmem := addAll_some hnone hkeys key
  rw [← hdirs, List.mem_filter, hmem]
  simp [Known]

theorem getDirectories_ends (env : DirEnv) (s : DirState) :
    ∃ dirs bound, ∀ fuel, bound < fuel → env.getDirectories fuel s = some dirs := by
  obtain ⟨bound, hbound⟩ : ∃ bound, ∀ key ∈ env.seeds s, keyMeasure key + 1 < bound := by
    refine ⟨((env.seeds s).map keyMeasure).sum + 2, fun key hkey => ?_⟩
    have hle : keyMeasure key ≤ ((env.seeds s).map keyMeasure).sum :=
      List.le_sum_of_mem (List.mem_map_of_mem hkey)
    omega
  have hsome := addAll_isSome (P := env.KeyLike) (f := env.parentKey) (m := keyMeasure)
    (fun key _ => parentKey_keyLike key) (fun key hkey => env.parentKey_falls hkey)
    (fun key hkey => ⟨seeds_keyLike hkey, hbound key hkey⟩) []
  obtain ⟨keys, hkeys⟩ := Option.isSome_iff_exists.mp hsome
  refine ⟨keys.filter (· ∉ s.removedDirs), bound, fun fuel hfuel => ?_⟩
  unfold getDirectories
  rw [addAll_mono (Nat.le_of_lt hfuel) hkeys]
  rfl

/-- The parents of the directories exist exactly when no directory is an orphan. -/
theorem parentsExist_iff (s : DirState) :
    env.ParentsExist s ↔ NoOrphans env.parentKey (env.Known s) s.removedDirs := by
  obtain ⟨dirs, bound, hdirs⟩ := env.getDirectories_ends s
  constructor
  · intro h key hkey hstays
    have hget := hdirs (bound + 1) (Nat.lt_succ_self _)
    have hin := (mem_getDirectories hget key).mpr ⟨hkey, hstays⟩
    exact ((mem_getDirectories hget _).mp (h.closed _ _ hget key hin)).2
  · intro h
    refine ⟨⟨dirs, bound, hdirs⟩, fun fuel dirs' hget key hin => ?_⟩
    obtain ⟨hkey, hstays⟩ := (mem_getDirectories hget key).mp hin
    exact (mem_getDirectories hget _).mpr ⟨hkey.next, h key hkey hstays⟩

theorem ancestorsExist_create (s : DirState) (path : PyStr) :
    env.AncestorsExist s (.createDirectory path) ↔
      env.Known (env.createDirectory s path) (env.parentKey (env.key path)) ∧
        ∀ a, Leads env.parentKey (env.parentKey (env.key path)) a →
          a ∉ (env.createDirectory s path).removedDirs := by
  obtain ⟨dirs, bound, hdirs⟩ := env.getDirectories_ends (env.createDirectory s path)
  constructor
  · intro h
    have hget := hdirs (bound + 1) (Nat.lt_succ_self _)
    have hin := fun a ha => (mem_getDirectories hget a).mp (h _ _ hget a ha)
    exact ⟨(hin _ (leads_refl _ _)).1, fun a ha => (hin a ha).2⟩
  · rintro ⟨hknown, hstays⟩ fuel dirs' hget a ha
    exact (mem_getDirectories hget a).mpr ⟨hknown.trans ha, hstays a ha⟩

theorem mem_dirs_create {s : DirState} {path d : PyStr} :
    d ∈ env.dirs (env.createDirectory s path) ↔ d = env.key path ∨ d ∈ env.dirs s := by
  simp only [dirs, createDirectory, List.cons_append, List.mem_cons, List.mem_append]
  tauto

theorem known_create {s : DirState} {path a : PyStr} :
    env.Known (env.createDirectory s path) a ↔
      (Counts (env.key path) ∧ Leads env.parentKey (env.pathKey (env.key path)) a) ∨ env.Known s a := by
  unfold Known Reached seeds
  constructor
  · rintro ⟨key, hkey, hlead⟩
    obtain ⟨d, hd, hdk⟩ := List.mem_map.mp hkey
    obtain ⟨hd, hcounts⟩ := List.mem_filter.mp hd
    rcases mem_dirs_create.mp hd with heq | hin
    · subst heq
      exact Or.inl ⟨of_decide_eq_true hcounts, hdk ▸ hlead⟩
    · exact Or.inr ⟨key, List.mem_map.mpr ⟨d, List.mem_filter.mpr ⟨hin, hcounts⟩, hdk⟩, hlead⟩
  · rintro (⟨hcounts, hlead⟩ | ⟨key, hkey, hlead⟩)
    · refine ⟨_, List.mem_map.mpr ⟨env.key path, List.mem_filter.mpr ⟨?_, ?_⟩, rfl⟩, hlead⟩
      · exact mem_dirs_create.mpr (Or.inl rfl)
      · exact decide_eq_true hcounts
    · obtain ⟨d, hd, hdk⟩ := List.mem_map.mp hkey
      obtain ⟨hd, hcounts⟩ := List.mem_filter.mp hd
      exact ⟨key, List.mem_map.mpr ⟨d, List.mem_filter.mpr ⟨mem_dirs_create.mpr (Or.inr hd), hcounts⟩,
        hdk⟩, hlead⟩

theorem known_remove {s : DirState} {path a : PyStr}
    (h : env.Known (env.removeDirectory s path) a) : env.Known s a := by
  obtain ⟨key, hkey, hlead⟩ := h
  obtain ⟨d, hd, hdk⟩ := List.mem_map.mp hkey
  obtain ⟨hd, hcounts⟩ := List.mem_filter.mp hd
  refine ⟨key, List.mem_map.mpr ⟨d, List.mem_filter.mpr ⟨?_, hcounts⟩, hdk⟩, hlead⟩
  simp only [dirs, removeDirectory, List.cons_append, List.mem_cons, List.mem_append,
    List.mem_filter] at hd ⊢
  tauto

/-- The files that stay when a file is created, and the new one. -/
theorem createFile_files (env : FileEnv) (s : FileManager) (path : PyStr) :
    ∃ files new, (s.createFile env path []).2.files = files ++ [new] ∧ files ⊆ s.files ∧
      new.path = path := by
  refine ⟨(s.dropFile env path).2.files, _, rfl, ?_, rfl⟩
  unfold FileManager.dropFile
  split
  next => exact List.erase_subset
  next => exact List.Subset.refl _

theorem mem_filePaths_createFile {s : DirState} {path p : PyStr}
    (h : p ∈ env.filePaths (env.createFile s path)) : p = path ∨ p ∈ env.filePaths s := by
  obtain ⟨files, new, hfiles, hsub, hnew⟩ := createFile_files env.toFileEnv s.manager path
  have hp : p ∈ env.walkFiles ++ (s.manager.createFile env.toFileEnv path []).2.files.map EmuFile.path ++
    env.modulePaths.filter (· ≠ []) := h
  rw [hfiles, List.map_append, List.map_singleton, hnew] at hp
  unfold filePaths
  rcases List.mem_append.mp hp with hp | hp
  · rcases List.mem_append.mp hp with hp | hp
    · exact Or.inr (List.mem_append_left _ (List.mem_append_left _ hp))
    · rcases List.mem_append.mp hp with hp | hp
      · have hold := (List.map_subset EmuFile.path hsub) hp
        exact Or.inr (List.mem_append_left _ (List.mem_append_right _ hold))
      · exact Or.inl (List.mem_singleton.mp hp)
  · exact Or.inr (List.mem_append_right _ hp)

theorem mem_filePaths_new (s : DirState) (path : PyStr) :
    path ∈ env.filePaths (env.createFile s path) := by
  obtain ⟨files, new, hfiles, -, hnew⟩ := createFile_files env.toFileEnv s.manager path
  refine List.mem_append_left _ (List.mem_append_right _ ?_)
  show path ∈ (s.manager.createFile env.toFileEnv path []).2.files.map EmuFile.path
  rw [hfiles, List.map_append, List.map_singleton, hnew]
  exact List.mem_append_right _ List.mem_cons_self

theorem known_createFile_of {s : DirState} {path a : PyStr}
    (h : env.Known (env.createFile s path) a) :
    (Counts (dirname path) ∧ Leads env.parentKey (env.pathKey (dirname path)) a) ∨ env.Known s a := by
  obtain ⟨key, hkey, hlead⟩ := h
  obtain ⟨d, hd, hdk⟩ := List.mem_map.mp hkey
  obtain ⟨hd, hcounts⟩ := List.mem_filter.mp hd
  have hcases : d = dirname path ∨ d ∈ env.dirs s := by
    rcases List.mem_append.mp hd with hd | hd
    · exact Or.inr (List.mem_append_left _ hd)
    · obtain ⟨p, hp, hpd⟩ := List.mem_map.mp hd
      rcases mem_filePaths_createFile hp with heq | hold
      · exact Or.inl (heq ▸ hpd.symm)
      · exact Or.inr (List.mem_append_right _ (List.mem_map.mpr ⟨p, hold, hpd⟩))
  rcases hcases with heq | hin
  · subst heq
    exact Or.inl ⟨of_decide_eq_true hcounts, hdk ▸ hlead⟩
  · exact Or.inr ⟨key, List.mem_map.mpr ⟨d, List.mem_filter.mpr ⟨hin, hcounts⟩, hdk⟩, hlead⟩

theorem known_createFile {s : DirState} {path a : PyStr} (hcounts : Counts (dirname path))
    (hlead : Leads env.parentKey (env.pathKey (dirname path)) a) :
    env.Known (env.createFile s path) a := by
  refine ⟨_, List.mem_map.mpr ⟨dirname path, List.mem_filter.mpr ⟨?_, ?_⟩, rfl⟩, hlead⟩
  · exact List.mem_append_right _ (List.mem_map.mpr ⟨path, mem_filePaths_new s path, rfl⟩)
  · exact decide_eq_true hcounts

/-- A call keeps the parents of the directories, and makes those of a new one, exactly when it is safe. -/
theorem step_iff (s : DirState) (op : DirOp) (h : env.ParentsExist s) :
    env.ParentsExist (env.step s op) ∧ env.AncestorsExist s op ↔ env.Safe s op := by
  rw [parentsExist_iff] at h ⊢
  cases op with
  | createDirectory path =>
    rw [ancestorsExist_create]
    constructor
    · rintro ⟨hclosed, hknown, hstays⟩
      refine ⟨hknown, hstays, fun hcounts a ha => hclosed a ?_⟩
      exact known_create.mpr (Or.inl ⟨hcounts, ha⟩)
    · rintro ⟨hknown, hstays, hway⟩
      refine ⟨fun a ha => ?_, hknown, hstays⟩
      rcases known_create.mp ha with ⟨hcounts, hlead⟩ | hold
      · exact hway hcounts a hlead
      · exact h.restore (hstays _ (leads_refl _ _)) a hold
  | removeDirectory path =>
    have hmono : NoOrphans env.parentKey (env.Known (env.removeDirectory s path)) s.removedDirs :=
      h.mono fun _ => known_remove
    exact (and_iff_left trivial).trans (hmono.remove_iff (env.key path))
  | createFile path =>
    refine (and_iff_left trivial).trans ?_
    constructor
    · exact fun hclosed hcounts a ha => hclosed a (known_createFile hcounts ha)
    · intro hway a ha
      rcases known_createFile_of ha with ⟨hcounts, hlead⟩ | hold
      · exact hway hcounts a hlead
      · exact h a hold

theorem parentsExist_start (env : DirEnv) (image : Option EmuFile) : env.ParentsExist (start image) := by
  rw [parentsExist_iff]
  exact fun a _ _ => List.not_mem_nil

/-- The law holds in exactly the runs whose calls are safe. -/
theorem run_directoryLaw_iff (env : DirEnv) (image : Option EmuFile) (ops : List DirOp) :
    env.DirectoryLaw image ops ↔ FoldRuns.EachStep env.step env.Safe (start image) ops := by
  rw [← FoldRuns.always_and_eachStep_iff (fun s op h => step_iff s op h)
    (parentsExist_start env image) ops]
  exact ⟨fun h => ⟨h.parents, h.ancestors⟩, fun h => ⟨h.1, h.2⟩⟩

/-- A character whose lower case is not a letter is its own lower case. -/
theorem toLower_cases (c : Char) : c.toLower = c ∨ 97 ≤ c.toLower.toNat ∧ c.toLower.toNat ≤ 122 := by
  unfold Char.toLower
  split
  next hc =>
    have hle := UInt32.le_iff_toNat_le.mp hc.1
    have hge := UInt32.le_iff_toNat_le.mp hc.2
    refine Or.inr ?_
    simp at hle hge ⊢
    omega
  next => exact Or.inl rfl

theorem toLower_toLower (c : Char) : c.toLower.toLower = c.toLower := by
  rcases toLower_cases c with heq | ⟨hle, hge⟩
  · rw [heq, heq]
  · have hnot : ¬(c.toLower.val ≥ 65 ∧ c.toLower.val ≤ 90) := by
      rintro ⟨-, hupper⟩
      have hle' := UInt32.le_iff_toNat_le.mp hupper
      simp at hle'
      omega
    generalize c.toLower = d at hnot
    unfold Char.toLower
    exact dif_neg hnot

def plainDirs : DirEnv where
  lc := asciiLower
  currentDir := "C:\\d".toList
  entries := []
  modulePaths := []
  emulatedBinname := []
  processPath := none
  hostExists _ := true
  hostData _ := []
  getenv _ := none
  stable := by
    intro s t ht
    refine (List.map_congr_left fun c hc => ?_).trans (List.map_id _)
    obtain ⟨c', _, hc'⟩ := List.mem_map.mp (ht hc)
    rw [← hc']
    exact toLower_toLower c'
  noAltSep := by
    intro s hs hin
    obtain ⟨c, hc, heq⟩ := List.mem_map.mp hin
    rcases toLower_cases c with hsame | ⟨hle, hge⟩
    · exact hs ((hsame.symm.trans heq) ▸ hc)
    · rw [heq] at hle
      simp at hle

/-- A directory that stays below a removed one is an orphan. -/
theorem run_not_directoryLaw : ¬plainDirs.DirectoryLaw none
    [.createDirectory "C:\\a\\b".toList, .removeDirectory "C:\\a".toList] := by
  intro h
  have hlast := h.parents _ (List.prefix_refl _)
  have hdirs := hlast.closed 10 ["c:\\a\\b".toList, "c:".toList, "c:\\d".toList] (by decide)
    "c:\\a\\b".toList (by decide)
  exact absurd hdirs (by decide)

end DirEnv

end Speakeasy
