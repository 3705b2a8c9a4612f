import Speakeasy.FileManager
import Speakeasy.ClosureLoops
import Speakeasy.FoldRuns

namespace Speakeasy

section

/-- `ntpath.dirname`. -/
def dirname (path : PyStr) : PyStr :=
  let (drive, root, rest) := splitroot path
  drive ++ root ++ (rest.rdropWhile fun c => !isSep c).rdropWhile isSep

def directoryEnvVars : List PyStr :=
  ["allusersprofile".toList, "appdata".toList, "commonprogramfiles".toList, "localappdata".toList,
    "path".toList, "programdata".toList, "programfiles".toList, "public".toList, "systemroot".toList,
    "temp".toList, "tmp".toList, "userprofile".toList, "windir".toList]

/-- The file configuration with the environment variables. A string in lower case keeps its lower case
whatever is left out of it, and no separator comes from another character. -/
structure DirEnv extends FileEnv where
  getenv : PyStr → Option PyStr
  stable : ∀ s t, t ⊆ lc.str s → lc.str t = t
  noAltSep : ∀ s, '/' ∉ s → '/' ∉ lc.str s

/-- The file manager with its sets of created and removed directories. -/
structure DirState where
  manager : FileManager
  createdDirs : List PyStr
  removedDirs : List PyStr

inductive DirOp
  | createDirectory (path : PyStr)
  | removeDirectory (path : PyStr)
  | createFile (path : PyStr)

namespace DirEnv

variable (env : DirEnv)

def pathKey (path : PyStr) : PyStr := getPathKey env.lc path

/-- The key of the parent of a directory key. -/
def parentKey (key : PyStr) : PyStr := env.pathKey (dirname key)

/-- `walk_files`. -/
def walkFiles : List PyStr :=
  env.entries.filterMap fun e => match e.mode with
    | .fullPath emuPath => if emuPath = [] then none else some emuPath
    | _ => none

/-- The paths of the files of the configuration, of the emulation space and of the modules. -/
def filePaths (s : DirState) : List PyStr :=
  env.walkFiles ++ s.manager.files.map EmuFile.path ++ env.modulePaths.filter (· ≠ [])

/-- The directories that the set of `get_directories` is built from. -/
def dirs (s : DirState) : List PyStr :=
  env.currentDir :: s.createdDirs ++
    directoryEnvVars.flatMap (fun name => ((env.getenv name).getD []).splitOn ';') ++
    (env.filePaths s).map dirname

/-- A directory without a drive, or with a wildcard, is skipped. -/
def Counts (d : PyStr) : Prop := (splitroot d).1 ≠ [] ∧ '*' ∉ d ∧ '?' ∉ d

instance (d : PyStr) : Decidable (Counts d) := inferInstanceAs (Decidable (_ ∧ _))

/-- The keys that the loops of `get_directories` begin with. -/
def seeds (s : DirState) : List PyStr :=
  ((env.dirs s).filter fun d => decide (Counts d)).map env.pathKey

/-- `get_directories`. It is `none` when the loop needs more than `fuel` rounds for a directory. -/
def getDirectories (fuel : Nat) (s : DirState) : Option (List PyStr) :=
  (ClosureLoops.addAll env.parentKey fuel [] (env.seeds s)).map fun keys =>
    keys.filter (· ∉ s.removedDirs)

def createDirectory (s : DirState) (path : PyStr) : DirState :=
  let key := env.key path
  { s with
    removedDirs := s.removedDirs.filter (· ≠ key)
    createdDirs := key :: s.createdDirs }

def removeDirectory (s : DirState) (path : PyStr) : DirState :=
  let key := env.key path
  { s with
    createdDirs := s.createdDirs.filter (· ≠ key)
    removedDirs := key :: s.removedDirs }

def createFile (s : DirState) (path : PyStr) : DirState :=
  { s with manager := (s.manager.createFile env.toFileEnv path []).2 }

def step (s : DirState) : DirOp → DirState
  | .createDirectory path => env.createDirectory s path
  | .removeDirectory path => env.removeDirectory s path
  | .createFile path => env.createFile s path

def start (image : Option EmuFile) : DirState := ⟨FileManager.initial image, [], []⟩

/-- The directories that exist are found, and the parents of all of them exist. -/
structure ParentsExist (s : DirState) : Prop where
  ends : ∃ dirs bound, ∀ fuel, bound < fuel → env.getDirectories fuel s = some dirs
  closed : ∀ fuel dirs, env.getDirectories fuel s = some dirs →
    ∀ key ∈ dirs, env.parentKey key ∈ dirs

/-- After a directory is created, all its ancestors exist. -/
def AncestorsExist (s : DirState) : DirOp → Prop
  | .createDirectory path => ∀ fuel dirs,
      env.getDirectories fuel (env.createDirectory s path) = some dirs →
      ∀ key, ClosureLoops.Leads env.parentKey (env.parentKey (env.key path)) key → key ∈ dirs
  | _ => True

/-- A directory that the directories of the state are in or below. -/
def Known (s : DirState) (key : PyStr) : Prop :=
  ClosureLoops.Reached env.parentKey (env.seeds s) key

/-- The call removes no directory that is not empty, and makes nothing below a removed one. -/
def Safe (s : DirState) : DirOp → Prop
  | .createDirectory path =>
    let key := env.key path
    let s := env.createDirectory s path
    env.Known s (env.parentKey key) ∧
      (∀ a, ClosureLoops.Leads env.parentKey (env.parentKey key) a → a ∉ s.removedDirs) ∧
      (Counts key → ∀ a, ClosureLoops.Leads env.parentKey (env.pathKey key) a →
        a ∉ s.removedDirs → env.parentKey a ∉ s.removedDirs)
  | .removeDirectory path => ∀ a, env.Known (env.removeDirectory s path) a →
      env.parentKey a = env.key path → a = env.key path ∨ a ∈ s.removedDirs
  | .createFile path => Counts (dirname path) →
      ∀ a, ClosureLoops.Leads env.parentKey (env.pathKey (dirname path)) a →
        a ∉ s.removedDirs → env.parentKey a ∉ s.removedDirs

/-- The law of the directories in a run: the parents of the directories always exist, and creating a
directory makes all its ancestors. -/
structure DirectoryLaw (image : Option EmuFile) (ops : List DirOp) : Prop where
  parents : FoldRuns.Always env.step env.ParentsExist (start image) ops
  ancestors : FoldRuns.EachStep env.step env.AncestorsExist (start image) ops

end DirEnv

end

section

theorem replaceAltSep_eq {path : PyStr} (h : '/' ∉ path) : replaceAltSep path = path := by
  refine (List.map_congr_left fun c hc => ?_).trans (List.map_id _)
  have hne : c ≠ '/' := fun heq => h (heq ▸ hc)
  simp [hne]

theorem altSep_not_mem_replaceAltSep (path : PyStr) : '/' ∉ replaceAltSep path := by
  intro hin
  obtain ⟨c, hc, heq⟩ := List.mem_map.mp hin
  by_cases hslash : c = '/'
  · simp [hslash] at heq
  · simp [hslash] at heq

theorem splitroot_append (path : PyStr) :
    (splitroot path).1 ++ (splitroot path).2.1 ++ (splitroot path).2.2 = path := by
  have hcut : ∀ n, path.take n ++ (path.drop n).take 1 ++ path.drop (n + 1) = path := by
    intro n
    rw [List.append_assoc, ← List.drop_drop, List.take_append_drop, List.take_append_drop]
  unfold splitroot
  simp only
  split
  · split
    next => simp
    next =>
      split
      next => simp
      next => exact hcut _
  · exact hcut 0
  · exact hcut 2
  · simp
  · simp

theorem dirname_prefix (path : PyStr) : dirname path <+: path := by
  have happend := splitroot_append path
  obtain ⟨tail, htail⟩ : ((splitroot path).2.2.rdropWhile fun c => !isSep c).rdropWhile isSep <+:
      (splitroot path).2.2 :=
    (List.rdropWhile_prefix _ _).trans (List.rdropWhile_prefix _ _)
  refine ⟨tail, ?_⟩
  rw [← htail, ← List.append_assoc] at happend
  exact happend

/-- The components that stay are some of the components. -/
theorem normComps_sublist (rooted : Bool) (done comps : List PyStr) :
    (normComps rooted done comps).Sublist (done.reverse ++ comps) := by
  induction comps generalizing done with
  | nil => simp [normComps]
  | cons comp comps ih =>
    have hskip : (done.reverse ++ comps).Sublist (done.reverse ++ comp :: comps) :=
      (List.sublist_cons_self comp comps).append_left _
    unfold normComps
    split
    next => exact (ih done).trans hskip
    next =>
      split
      next =>
        split
        next d ds =>
          split
          next => simpa using ih (comp :: d :: ds)
          next =>
            have hds : (ds.reverse ++ comps).Sublist ((d :: ds).reverse ++ comps) := by
              simp
            exact ((ih ds).trans hds).trans hskip
        next =>
          split
          next => exact (ih []).trans hskip
          next => simpa using ih [comp]
      next => simpa using ih (comp :: done)

theorem intercalate_sublist {sep : PyStr} {l l' : List PyStr} (h : l.Sublist l') :
    (sep.intercalate l).Sublist (sep.intercalate l') := by
  induction h with
  | slnil => exact List.Sublist.refl _
  | @cons l₁ l₂ a h ih =>
    by_cases hnil : l₂ = []
    · subst hnil
      rw [List.sublist_nil.mp h, List.intercalate_nil]
      exact List.nil_sublist _
    · rw [List.intercalate_cons_of_ne_nil hnil]
      exact ih.trans (List.sublist_append_right _ _)
  | @cons_cons l₁ l₂ a h ih =>
    by_cases hnil : l₁ = []
    · subst hnil
      rw [List.intercalate_singleton]
      by_cases hnil₂ : l₂ = []
      · rw [hnil₂, List.intercalate_singleton]
      · rw [List.intercalate_cons_of_ne_nil hnil₂, List.append_assoc]
        exact List.sublist_append_left _ _
    · have hnil₂ : l₂ ≠ [] := by
        intro heq
        rw [heq] at h
        exact hnil (List.sublist_nil.mp h)
      rw [List.intercalate_cons_of_ne_nil hnil, List.intercalate_cons_of_ne_nil hnil₂]
      exact ih.append_left _

/-- A normal path leaves characters out, but an empty path is the current directory. -/
theorem normpath_sublist {path : PyStr} (h : '/' ∉ path) :
    normpath path = ['.'] ∨ (normpath path).Sublist path := by
  have happend := splitroot_append path
  unfold normpath
  rw [replaceAltSep_eq h]
  simp only
  split
  next => exact Or.inl rfl
  next =>
    refine Or.inr ?_
    have hcomps : (['\\'].intercalate (normComps ((splitroot path).2.1 ≠ []) []
        ((splitroot path).2.2.splitOn '\\'))).Sublist (splitroot path).2.2 := by
      have hsub : (['\\'].intercalate _).Sublist (['\\'].intercalate _) :=
        intercalate_sublist (normComps_sublist ((splitroot path).2.1 ≠ []) []
          ((splitroot path).2.2.splitOn '\\'))
      rwa [List.reverse_nil, List.nil_append, List.intercalate_splitOn] at hsub
    have hall := hcomps.append_left ((splitroot path).1 ++ (splitroot path).2.1)
    rwa [happend] at hall

theorem normpath_replaceAltSep (path : PyStr) : normpath (replaceAltSep path) = normpath path := by
  unfold normpath
  rw [replaceAltSep_eq (altSep_not_mem_replaceAltSep path)]

namespace DirEnv

variable (env : DirEnv)

/-- A string that is a key of a path has no `/`, and its parts are in lower case. -/
def KeyLike (key : PyStr) : Prop := '/' ∉ key ∧ ∀ t, t ⊆ key → env.lc.str t = t

theorem pathKey_keyLike (path : PyStr) : env.KeyLike (env.pathKey path) := by
  have hslash : '/' ∉ normpath path := by
    rw [← normpath_replaceAltSep]
    rcases normpath_sublist (altSep_not_mem_replaceAltSep path) with heq | hsub
    · rw [heq]
      decide
    · exact fun hin => altSep_not_mem_replaceAltSep path (hsub.subset hin)
  refine ⟨env.noAltSep _ fun hin => hslash ?_, fun t ht => env.stable _ t ht⟩
  exact (List.rdropWhile_prefix _ _).subset hin

def keyMeasure (key : PyStr) : Nat := if key = ['.'] then 0 else key.length + 1

/-- The parent of a key is shorter, or the key itself at the root of a drive. -/
theorem parentKey_falls {key : PyStr} (hkey : env.KeyLike key) :
    keyMeasure (env.parentKey key) < keyMeasure key ∨ env.parentKey key = key := by
  have hpre := dirname_prefix key
  have hdir : '/' ∉ dirname key := fun hin => hkey.1 (hpre.subset hin)
  have hdot : env.lc.str ['.'] = ['.'] := env.lc.ascii _ (forall_lt_of_all (by decide))
  rcases normpath_sublist hdir with heq | hsub
  · have hparent : env.parentKey key = ['.'] := by
      unfold parentKey pathKey getPathKey
      rw [heq]
      exact hdot
    rw [hparent]
    by_cases hk : key = ['.']
    · exact Or.inr hk.symm
    · refine Or.inl ?_
      simp [keyMeasure, hk]
  · have hstrip : (rstripSep (normpath (dirname key))).Sublist key :=
      ((List.rdropWhile_prefix _ _).sublist.trans hsub).trans hpre.sublist
    have hparent : env.parentKey key = rstripSep (normpath (dirname key)) :=
      hkey.2 _ hstrip.subset
    rw [hparent]
    by_cases hlen : (rstripSep (normpath (dirname key))).length = key.length
    · exact Or.inr (hstrip.eq_of_length hlen)
    · have hle := hstrip.length_le
      refine Or.inl ?_
      unfold keyMeasure
      by_cases hk : key = ['.']
      · rw [hk] at hlen
        exact absurd (by decide) hlen
      · rw [if_neg hk]
        split <;> omega

end DirEnv

end

end Speakeasy
