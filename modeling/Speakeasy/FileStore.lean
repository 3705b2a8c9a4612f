import Speakeasy.FileManager
import Speakeasy.ListSearch

namespace Speakeasy

/-- The paths of the calls and the queries, none of which names the NUL device or the sample. -/
structure ProperPaths (env : FileEnv) (image : Option EmuFile) (paths : PyStr → Prop) : Prop where
  notNull : ∀ p, paths p → isNullDevice env.lc p = false
  notAlias : ∀ p, paths p → env.emulatedBinname = [] ∨
    env.lc.str (env.getFullPath p) ≠ env.lc.str (env.getFullPath env.emulatedBinname)
  notImage : ∀ p, paths p → ∀ f ∈ image, env.key f.path ≠ env.key p ∧
    env.lc.str f.path ≠ env.lc.str (env.getFullPath p)

/-- Equal paths are spelled alike: their full paths differ only in case, and are full paths of
themselves. -/
structure SpelledAlike (env : FileEnv) (paths : PyStr → Prop) : Prop where
  settled : ∀ p, paths p → env.getFullPath (env.getFullPath p) = env.getFullPath p
  alike : ∀ p q, paths p → paths q → (env.key p = env.key q ↔
    env.lc.str (env.getFullPath p) = env.lc.str (env.getFullPath q))

/-- A path that is given to `create_file` itself is a full path. -/
def CreatesFull (env : FileEnv) : FileOp → Prop
  | .createFile p => env.getFullPath p = p
  | _ => True

namespace FileManager

variable {env : FileEnv} {image : Option EmuFile} {paths : PyStr → Prop} {s : FileManager}
  {changes : List FileChange}

/-- The files are the sample and files at full paths of the calls, and have different keys. -/
structure Known (env : FileEnv) (image : Option EmuFile) (paths : PyStr → Prop)
    (files : List EmuFile) : Prop where
  path : ∀ f ∈ files, f ∈ image ∨ ∃ p, paths p ∧ f.path = env.getFullPath p
  distinct : files.Pairwise fun f g => env.key f.path ≠ env.key g.path

/-- The files that the changes left. -/
structure Inv (env : FileEnv) (image : Option EmuFile) (paths : PyStr → Prop) (s : FileManager)
    (changes : List FileChange) : Prop where
  known : Known env image paths s.files
  created : ∀ q, paths q → ∀ id, lastChange changes (env.key q) = some (some id) →
    ∃ f ∈ s.files, f.id = id ∧ env.key f.path = env.key q
  deleted : ∀ q, paths q → lastChange changes (env.key q) = some none →
    env.key q ∈ s.deletedPaths ∧ ∀ f ∈ s.files, env.key f.path ≠ env.key q

section

variable (hp : ProperPaths env image paths) (ha : SpelledAlike env paths)
include hp ha

/-- The lookup by the spelling of a path finds the file with its key. -/
theorem Known.same_iff (h : Known env image paths s.files) {f : EmuFile} (hf : f ∈ s.files)
    {q : PyStr} (hq : paths q) :
    env.lc.str f.path = env.lc.str (env.getFullPath q) ↔ env.key f.path = env.key q := by
  rcases h.path f hf with hf | ⟨p, hpath, hfp⟩
  · have := hp.notImage q hq f hf
    exact ⟨fun heq => absurd heq this.2, fun heq => absurd heq this.1⟩
  · have hkey : env.key f.path = env.key p := by
      unfold FileEnv.key
      rw [hfp, ha.settled p hpath]
    rw [hkey, hfp]
    exact (ha.alike p q hpath hq).symm

theorem Known.getFileFromPath (h : Known env image paths s.files) {q : PyStr} (hq : paths q) :
    s.getFileFromPath env q = s.files.find? fun f => decide (env.key f.path = env.key q) := by
  have hfind : (s.files.find? fun f =>
      decide (env.lc.str f.path = env.lc.str (env.getFullPath q))) =
        s.files.find? fun f => decide (env.key f.path = env.key q) := by
    apply find?_congr
    intro f hf
    rw [decide_eq_decide]
    exact h.same_iff hp ha hf hq
  have halias : s.isImageAlias env (env.getFullPath q) = false := by
    unfold isImageAlias
    split
    · rfl
    · apply decide_eq_false
      rintro ⟨hne, heq, -⟩
      exact (hp.notAlias q hq).elim hne fun hneq => hneq heq
  simp only [FileManager.getFileFromPath, hfind, halias]
  cases s.files.find? fun f => decide (env.key f.path = env.key q) <;> rfl

/-- What is dropped are all the files with the key of the path. -/
theorem Known.dropFile (h : Known env image paths s.files) {q : PyStr} (hq : paths q) :
    (s.dropFile env q).2 =
      { s with files := s.files.filter fun f => decide (env.key f.path ≠ env.key q) } := by
  unfold FileManager.dropFile
  rw [h.getFileFromPath hp ha hq]
  cases hfind : s.files.find? fun f => decide (env.key f.path = env.key q) with
  | none =>
    have hall := List.find?_eq_none.mp hfind
    have hfilter : (s.files.filter fun f => decide (env.key f.path ≠ env.key q)) = s.files := by
      apply List.filter_eq_self.mpr
      intro f hf
      have := hall f hf
      simpa using this
    rw [hfilter]
  | some f =>
    have hf := List.mem_of_find?_eq_some hfind
    have hkey : env.key f.path = env.key q := by simpa using List.find?_some hfind
    have hnodup : s.files.Nodup := h.distinct.imp fun hne heq => hne (by rw [heq])
    have herase : s.files.erase f = s.files.filter fun g => decide (env.key g.path ≠ env.key q) := by
      rw [hnodup.erase_eq_filter]
      apply List.filter_congr
      intro g hg
      have hsymm : Std.Symm fun f g : EmuFile => env.key f.path ≠ env.key g.path :=
        ⟨fun _ _ hne => hne.symm⟩
      by_cases hgf : g = f
      · simp [hgf, hkey]
      · have := h.distinct.forall hg hf hgf
        rw [hkey] at this
        simp [hgf, this]
    simp only [herase]

omit hp ha in
theorem Known.filter (h : Known env image paths s.files) (keep : EmuFile → Bool) :
    Known env image paths (s.files.filter keep) :=
  ⟨fun f hf => h.path f (List.mem_of_mem_filter hf), h.distinct.sublist List.filter_sublist⟩

omit hp in
/-- A file at a path whose key no other file has. -/
theorem Known.append (h : Known env image paths s.files) {q : PyStr} (hq : paths q)
    (hnone : ∀ f ∈ s.files, env.key f.path ≠ env.key q) {f : EmuFile}
    (hf : f.path = env.getFullPath q) : Known env image paths (s.files ++ [f]) := by
  have hkey : env.key f.path = env.key q := by
    unfold FileEnv.key
    rw [hf, ha.settled q hq]
  constructor
  · intro g hg
    rcases List.mem_append.mp hg with hg | hg
    · exact h.path g hg
    · rw [List.mem_singleton] at hg
      exact Or.inr ⟨q, hq, hg ▸ hf⟩
  · apply List.pairwise_append.mpr
    refine ⟨h.distinct, List.pairwise_singleton _ _, ?_⟩
    intro g hg f' hf'
    rw [List.mem_singleton] at hf'
    rw [hf', hkey]
    exact hnone g hg

/-- What `create_file` leaves, for a path or its full path. -/
theorem Known.createFile (h : Known env image paths s.files) {q x : PyStr} (hq : paths q)
    (hx : env.getFullPath x = env.getFullPath q) (data : List UInt8) :
    s.createFile env x data = (⟨s.nextId, x, data⟩,
      { files := (s.files.filter fun f => decide (env.key f.path ≠ env.key q)) ++ [⟨s.nextId, x, data⟩]
        deletedPaths := s.deletedPaths.filter (· ≠ env.key q)
        nextId := s.nextId + 1 }) := by
  have hdrop : s.dropFile env x = s.dropFile env q := by
    unfold FileManager.dropFile FileManager.getFileFromPath
    rw [hx]
  have hkey : env.key x = env.key q := by
    unfold FileEnv.key
    rw [hx]
  unfold FileManager.createFile
  rw [hdrop, h.dropFile hp ha hq, hkey]
  rfl

theorem Known.removeFile (h : Known env image paths s.files) {q : PyStr} (hq : paths q) :
    (s.removeFile env q).2 =
      { s with
        deletedPaths := env.key q :: s.deletedPaths
        files := s.files.filter fun f => decide (env.key f.path ≠ env.key q) } := by
  have h' : Known env image paths
      (FileManager.mk s.files (env.key q :: s.deletedPaths) s.nextId).files := h
  exact h'.dropFile hp ha hq

end

theorem lastChange_cons (c : FileChange) (changes : List FileChange) (key : PyStr) :
    lastChange (c :: changes) key = if c.key = key then some c.created else lastChange changes key := by
  unfold lastChange
  rw [List.find?_cons]
  by_cases h : c.key = key
  · simp [h]
  · simp [h]

section

variable (hp : ProperPaths env image paths) (ha : SpelledAlike env paths)
include hp ha

theorem Inv.createFile (h : Inv env image paths s changes) {q x : PyStr} (hq : paths q)
    (hx : env.getFullPath x = env.getFullPath q) (hfull : x = env.getFullPath q)
    (data : List UInt8) : Inv env image paths (s.createFile env x data).2
      (⟨env.key q, some (s.createFile env x data).1.id⟩ :: changes) := by
  rw [h.known.createFile hp ha hq hx data]
  have hkey : env.key x = env.key q := by
    unfold FileEnv.key
    rw [hx]
  refine ⟨?_, ?_, ?_⟩
  · have hfiltered := h.known.filter fun f => decide (env.key f.path ≠ env.key q)
    apply Known.append (s := ⟨_, s.deletedPaths, 0⟩) ha hfiltered hq _ hfull
    intro f hf
    have := (List.mem_filter.mp hf).2
    simpa using this
  · intro r hr id hlast
    rw [lastChange_cons] at hlast
    by_cases hqr : env.key q = env.key r
    · rw [if_pos hqr] at hlast
      cases hlast
      exact ⟨_, List.mem_append_right _ List.mem_cons_self, rfl, hkey.trans hqr⟩
    · rw [if_neg hqr] at hlast
      obtain ⟨f, hf, hid, hfr⟩ := h.created r hr id hlast
      refine ⟨f, List.mem_append_left _ (List.mem_filter.mpr ⟨hf, ?_⟩), hid, hfr⟩
      apply decide_eq_true
      rw [hfr]
      exact fun heq => hqr heq.symm
  · intro r hr hlast
    rw [lastChange_cons] at hlast
    by_cases hqr : env.key q = env.key r
    · rw [if_pos hqr] at hlast
      cases hlast
    · rw [if_neg hqr] at hlast
      obtain ⟨hdeleted, hnone⟩ := h.deleted r hr hlast
      refine ⟨List.mem_filter.mpr ⟨hdeleted, decide_eq_true fun heq => hqr heq.symm⟩, ?_⟩
      intro f hf
      rcases List.mem_append.mp hf with hf | hf
      · exact hnone f (List.mem_of_mem_filter hf)
      · rw [List.mem_singleton] at hf
        rw [hf]
        exact fun heq => hqr (hkey.symm.trans heq)

theorem Inv.removeFile (h : Inv env image paths s changes) {q : PyStr} (hq : paths q) :
    Inv env image paths (s.removeFile env q).2 (⟨env.key q, none⟩ :: changes) := by
  rw [h.known.removeFile hp ha hq]
  refine ⟨h.known.filter _, ?_, ?_⟩
  · intro r hr id hlast
    rw [lastChange_cons] at hlast
    by_cases hqr : env.key q = env.key r
    · rw [if_pos hqr] at hlast
      cases hlast
    · rw [if_neg hqr] at hlast
      obtain ⟨f, hf, hid, hfr⟩ := h.created r hr id hlast
      refine ⟨f, List.mem_filter.mpr ⟨hf, ?_⟩, hid, hfr⟩
      apply decide_eq_true
      rw [hfr]
      exact fun heq => hqr heq.symm
  · intro r hr hlast
    rw [lastChange_cons] at hlast
    by_cases hqr : env.key q = env.key r
    · refine ⟨List.mem_cons.mpr (Or.inl hqr.symm), ?_⟩
      intro f hf
      have := (List.mem_filter.mp hf).2
      rw [← hqr]
      simpa using this
    · rw [if_neg hqr] at hlast
      obtain ⟨hdeleted, hnone⟩ := h.deleted r hr hlast
      exact ⟨List.mem_cons_of_mem _ hdeleted, fun f hf => hnone f (List.mem_of_mem_filter hf)⟩

end

end FileManager

end Speakeasy
