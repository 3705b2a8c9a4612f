import Speakeasy.FileStore

namespace Speakeasy

namespace FileManager

variable {env : FileEnv} {image : Option EmuFile} {paths : PyStr → Prop} {s s' : FileManager}
  {changes : List FileChange}

section

variable (hp : ProperPaths env image paths) (ha : SpelledAlike env paths)
include hp ha

/-- A file that the configuration gives is added when no file has the path. -/
theorem Inv.getFileByPath (h : Inv env image paths s changes) {q : PyStr} (hq : paths q)
    {f : Option EmuFile} (hget : s.getFileByPath env q = .ok (f, s')) :
    Inv env image paths s' changes := by
  have hfull : s.getFileFromPath env (env.getFullPath q) = s.getFileFromPath env q := by
    unfold FileManager.getFileFromPath
    rw [ha.settled q hq]
  unfold FileManager.getFileByPath at hget
  simp only [hfull, h.known.getFileFromPath hp ha hq] at hget
  split at hget
  next =>
    cases hget
    exact h
  next hfind =>
    have hnone : ∀ f ∈ s.files, env.key f.path ≠ env.key q := by
      intro f hf
      have := List.find?_eq_none.mp hfind f hf
      simpa using this
    split at hget
    next =>
      cases hget
      exact h
    next e hentry =>
      split at hget
      next => cases hget
      next =>
        cases hget
        have hkey : env.key (env.getFullPath q) = env.key q := by
          unfold FileEnv.key
          rw [ha.settled q hq]
        have hlive : env.key q ∉ s.deletedPaths := by
          intro hdeleted
          unfold getEmuFile at hentry
          rw [ha.settled q hq] at hentry
          have hdeleted : getPathKey env.lc (env.getFullPath q) ∈ s.deletedPaths := hdeleted
          simp only [if_pos hdeleted] at hentry
          cases hentry
        refine ⟨h.known.append ha hq hnone rfl, ?_, ?_⟩
        · intro r hr id hlast
          obtain ⟨f, hf, hid, hfr⟩ := h.created r hr id hlast
          exact ⟨f, List.mem_append_left _ hf, hid, hfr⟩
        · intro r hr hlast
          obtain ⟨hdeleted, hfiles⟩ := h.deleted r hr hlast
          refine ⟨hdeleted, ?_⟩
          intro f hf
          rcases List.mem_append.mp hf with hf | hf
          · exact hfiles f hf
          · rw [List.mem_singleton] at hf
            rw [hf]
            show env.key (env.getFullPath q) ≠ env.key r
            rw [hkey]
            exact fun heq => hlive (heq ▸ hdeleted)

theorem Inv.copyFile (h : Inv env image paths s changes) {src dst : PyStr} (hsrc : paths src)
    (hdst : paths dst) {df : Option EmuFile} (hcopy : s.copyFile env src dst = .ok (df, s')) :
    match df with
    | some f => Inv env image paths s' (⟨env.key dst, some f.id⟩ :: changes)
    | none => Inv env image paths s' changes := by
  unfold FileManager.copyFile at hcopy
  split at hcopy
  next => cases hcopy
  next s₁ hget =>
    cases hcopy
    exact h.getFileByPath hp ha hsrc hget
  next sf s₁ hget =>
    cases hcopy
    have h₁ := h.getFileByPath hp ha hsrc hget
    exact h₁.createFile hp ha hdst (ha.settled dst hdst) rfl sf.data

theorem Inv.moveFile (h : Inv env image paths s changes) {src dst : PyStr} (hsrc : paths src)
    (hdst : paths dst) {df : Option EmuFile} (hmove : s.moveFile env src dst = .ok (df, s')) :
    match df with
    | some f => Inv env image paths s' (⟨env.key src, none⟩ :: ⟨env.key dst, some f.id⟩ :: changes)
    | none => Inv env image paths s' changes := by
  unfold FileManager.moveFile at hmove
  split at hmove
  next => cases hmove
  next s₁ hcopy =>
    cases hmove
    exact h.copyFile hp ha hsrc hdst hcopy
  next f s₁ hcopy =>
    cases hmove
    have h₁ := h.copyFile hp ha hsrc hdst hcopy
    exact h₁.removeFile hp ha hsrc

theorem Inv.fileOpen (h : Inv env image paths s changes) {q : PyStr} (hq : paths q) {create : Bool}
    {f : Option OpenedFile} (hopen : s.fileOpen env q create = .ok (f, s')) :
    if create then ∃ new, f = some (.file new) ∧
      Inv env image paths s' (⟨env.key q, some new.id⟩ :: changes)
    else Inv env image paths s' changes := by
  unfold FileManager.fileOpen at hopen
  rw [hp.notNull q hq] at hopen
  cases create with
  | true =>
    cases hopen
    exact ⟨_, rfl, h.createFile hp ha hq (ha.settled q hq) rfl []⟩
  | false =>
    simp only [Bool.false_eq_true, if_false] at hopen ⊢
    split at hopen
    next =>
      cases hopen
      exact h
    next =>
      split at hopen
      next => cases hopen
      next hget =>
        cases hopen
        exact h.getFileByPath hp ha hq hget

theorem Inv.step (h : Inv env image paths s changes) (op : FileOp) (hop : ∀ p ∈ op.paths, paths p)
    (hfull : CreatesFull env op) :
    Inv env image paths (s.step env op).1 ((s.step env op).2 ++ changes) := by
  cases op with
  | createFile q =>
    have hq := hop q List.mem_cons_self
    exact h.createFile hp ha hq rfl hfull.symm []
  | fileOpen q create =>
    have hq := hop q List.mem_cons_self
    unfold FileManager.step
    simp only
    split
    next f s' hopen =>
      have hinv := h.fileOpen hp ha hq hopen
      cases create with
      | true =>
        obtain ⟨new, hnew, hinv⟩ := hinv
        cases hnew
        exact hinv
      | false => exact hinv
    next f s' hne hopen =>
      have hinv := h.fileOpen hp ha hq hopen
      cases create with
      | true =>
        obtain ⟨new, hnew, -⟩ := hinv
        exact absurd hnew (hne new)
      | false => exact hinv
    next => exact h
  | copyFile src dst =>
    have hsrc := hop src List.mem_cons_self
    have hdst := hop dst (List.mem_cons_of_mem _ List.mem_cons_self)
    unfold FileManager.step
    simp only
    split
    next hcopy => exact h.copyFile hp ha hsrc hdst hcopy
    next hcopy => exact h.copyFile hp ha hsrc hdst hcopy
    next => exact h
  | moveFile src dst =>
    have hsrc := hop src List.mem_cons_self
    have hdst := hop dst (List.mem_cons_of_mem _ List.mem_cons_self)
    unfold FileManager.step
    simp only
    split
    next hmove => exact h.moveFile hp ha hsrc hdst hmove
    next hmove => exact h.moveFile hp ha hsrc hdst hmove
    next => exact h
  | removeFile q => exact h.removeFile hp ha (hop q List.mem_cons_self)
  | deleteFile q => exact h.removeFile hp ha (hop q List.mem_cons_self)
  | getFileByPath q =>
    have hq := hop q List.mem_cons_self
    unfold FileManager.step
    simp only
    split
    next hget => exact h.getFileByPath hp ha hq hget
    next => exact h

theorem Inv.respects (h : Inv env image paths s changes) : FilesRespectKeys env paths s changes where
  created q hq id hlast := by
    obtain ⟨f, hf, hid, hfq⟩ := h.created q hq id hlast
    have hget := h.known.getFileFromPath hp ha hq
    have hsome : ∃ g, s.files.find? (fun f => decide (env.key f.path = env.key q)) = some g := by
      rw [← Option.isSome_iff_exists, List.find?_isSome]
      exact ⟨f, hf, decide_eq_true hfq⟩
    obtain ⟨g, hg⟩ := hsome
    have hgq : env.key g.path = env.key q := by simpa using List.find?_some hg
    have hgf : g = f := by
      by_contra hne
      have hsymm : Std.Symm fun f g : EmuFile => env.key f.path ≠ env.key g.path :=
        ⟨fun _ _ hne => hne.symm⟩
      exact h.known.distinct.forall (List.mem_of_find?_eq_some hg) hf hne (hgq.trans hfq.symm)
    rw [hg] at hget
    refine ⟨?_, g, hget, hgf ▸ hid⟩
    unfold doesFileExist
    rw [hget]
    simp
  deleted q hq hlast := by
    obtain ⟨hdeleted, hfiles⟩ := h.deleted q hq hlast
    have hget := h.known.getFileFromPath hp ha hq
    have hnone : s.files.find? (fun f => decide (env.key f.path = env.key q)) = none := by
      apply List.find?_eq_none.mpr
      intro f hf
      simpa using hfiles f hf
    have hentry : s.getEmuFile env q = none := by
      unfold getEmuFile
      exact if_pos hdeleted
    unfold doesFileExist
    rw [hget, hnone, hentry, hp.notNull q hq]
    rfl
  unique p _ := by
    have hdistinct := (h.known.filter fun f => decide (env.key f.path = env.key p)).distinct
    rcases hlist : s.files.filter fun f => decide (env.key f.path = env.key p) with _ | ⟨f, _ | ⟨g, rest⟩⟩
    · rw [hlist]
      exact Nat.zero_le _
    · rw [hlist]
      exact Nat.le_refl _
    · rw [hlist] at hdistinct
      have hkey : ∀ x ∈ s.files.filter fun f => decide (env.key f.path = env.key p),
          env.key x.path = env.key p := fun x hx => by simpa using (List.mem_filter.mp hx).2
      rw [hlist] at hkey
      have hf := hkey f List.mem_cons_self
      have hg := hkey g (List.mem_cons_of_mem _ List.mem_cons_self)
      exact absurd (hf.trans hg.symm) (List.rel_of_pairwise_cons hdistinct List.mem_cons_self)

end

theorem inv_initial (image : Option EmuFile) : Inv env image paths (initial image) [] where
  known := by
    constructor
    · intro f hf
      exact Or.inl (Option.mem_toList.mp hf)
    · cases image with
      | none => exact List.Pairwise.nil
      | some f => exact List.pairwise_singleton _ _
  created q _ id hlast := by simp [lastChange] at hlast
  deleted q _ hlast := by simp [lastChange] at hlast

/-- The calls of a run name only some paths. The changes are recorded, the last one first. -/
inductive Run (env : FileEnv) (image : Option EmuFile) (paths : PyStr → Prop)
    (calls : FileOp → Prop) : FileManager → List FileChange → Prop
  | start : Run env image paths calls (initial image) []
  | next {s : FileManager} {changes : List FileChange} (op : FileOp) :
      Run env image paths calls s changes → (∀ p ∈ op.paths, paths p) → calls op →
      Run env image paths calls (s.step env op).1 ((s.step env op).2 ++ changes)

/-- The files respect the equality of paths in every run whose equal paths are spelled alike. -/
theorem run_respectsKeys (hp : ProperPaths env image paths) (ha : SpelledAlike env paths)
    (run : Run env image paths (CreatesFull env) s changes) :
    FilesRespectKeys env paths s changes := by
  have hinv : Inv env image paths s changes := by
    induction run with
    | start => exact inv_initial image
    | next op _ hop hfull ih => exact ih.step hp ha op hop hfull
  exact hinv.respects hp ha

def plainFiles : FileEnv where
  lc := asciiLower
  currentDir := ['C', ':', '\\', 'd']
  entries := []
  modulePaths := []
  emulatedBinname := []
  processPath := none
  hostExists _ := true
  hostData _ := []

def casePaths : List PyStr := [['C', ':', '\\', 'a'], ['c', ':', '/', '.', '.', '\\', 'A']]

def twoCases : List PyStr := [['C', ':', '\\', 'a'], ['c', ':', '\\', 'A']]

theorem run_respectsKeys_cases : FilesRespectKeys plainFiles (· ∈ twoCases)
    (((initial none).step plainFiles (.createFile ['C', ':', '\\', 'a'])).1.step plainFiles
      (.deleteFile ['c', ':', '\\', 'A'])).1
    [⟨['c', ':', '\\', 'a'], none⟩, ⟨['c', ':', '\\', 'a'], some 0⟩] := by
  have hp : ProperPaths plainFiles none (· ∈ twoCases) :=
    ⟨by decide, fun _ _ => Or.inl rfl, fun _ _ _ hf => nomatch hf⟩
  have ha : SpelledAlike plainFiles (· ∈ twoCases) := by
    refine ⟨by decide, ?_⟩
    have hall : ∀ p ∈ twoCases, ∀ q ∈ twoCases, (plainFiles.key p = plainFiles.key q ↔
        plainFiles.lc.str (plainFiles.getFullPath p) = plainFiles.lc.str (plainFiles.getFullPath q)) := by
      decide
    exact fun p q hpath hq => hall p hpath q hq
  have hrun : Run plainFiles none (· ∈ twoCases) (CreatesFull plainFiles) _ _ :=
    (Run.start.next (.createFile ['C', ':', '\\', 'a']) (by decide) (show
      plainFiles.getFullPath ['C', ':', '\\', 'a'] = ['C', ':', '\\', 'a'] by decide)).next
      (.deleteFile ['c', ':', '\\', 'A']) (by decide) trivial
  exact run_respectsKeys hp ha hrun

/-- A file that is created with another spelling of its path is not found. -/
theorem run_not_respectsKeys : ProperPaths plainFiles none (· ∈ casePaths) ∧
    ∃ s changes, Run plainFiles none (· ∈ casePaths) (fun _ => True) s changes ∧
      ¬ FilesRespectKeys plainFiles (· ∈ casePaths) s changes := by
  refine ⟨⟨by decide, fun _ _ => Or.inl rfl, fun _ _ _ hf => nomatch hf⟩, _, _,
    Run.start.next (.createFile ['C', ':', '\\', 'a']) (by decide) trivial, ?_⟩
  intro h
  have hexists := (h.created ['c', ':', '/', '.', '.', '\\', 'A'] (by decide) 0 (by decide)).1
  exact absurd hexists (by decide)

end FileManager

end Speakeasy
