import Speakeasy.CrtTableLaw
import Speakeasy.FileRuns

namespace Speakeasy

section

open CrtState

variable {env : CrtEnv} {s s' s₁ t : CrtState} {hfile : Option Nat} {stream : Nat} {fd rv : Int}

/-- A stream that has a file, and its descriptor, have one handle. -/
theorem CrtInv.lookup_eq (h : CrtInv env s) (hfd : s.getStreamFd env stream = some fd) (halone : s.Alone env fd stream) :
    s.fds.lookup fd = s.fileStreams.lookup stream := by
  cases hfile : s.fileStreams.lookup stream with
  | none => exact halone.2 hfile
  | some handle =>
    obtain ⟨k, hk, hlookup⟩ := h.same hfile
    have hsame : k = fd := Option.some.inj (hk.symm.trans hfd)
    rw [← hsame]
    exact hlookup

/-- A change of one descriptor, together with the stream that has it alone. -/
theorem CrtInv.assign (h : CrtInv env s) (hfd : s.getStreamFd env stream = some fd) (halone : s.Alone env fd stream)
    (new : Option Nat) (hhandles : HandlesOpen env t.handles t.fds) (hroom : t.handles.allocator.handle ≤ 0x100000000)
    (hfds : ∀ k, t.fds.lookup k = if k = fd then new else s.fds.lookup k)
    (hfiles : ∀ other, t.fileStreams.lookup other = if other = stream then new else s.fileStreams.lookup other)
    (hgets : ∀ other, other ≠ stream → t.getStreamFd env other = s.getStreamFd env other)
    (hself : ∀ k, t.getStreamFd env stream = some k → k = fd) (hnew : new ≠ none → t.getStreamFd env stream = some fd) :
    CrtInv env t ∧ s.Frame env t (some fd) (some stream) := by
  refine ⟨⟨hhandles, hroom, fun {other k} hk => ?_, fun {k h'} hlookup => ?_, fun {other h'} hlookup => ?_⟩,
    fun k hk => ?_, fun other hother => ?_⟩
  · by_cases heq : other = stream
    · rw [hself k (heq ▸ hk)]
      exact h.nonneg hfd
    · exact h.nonneg ((hgets other heq).symm.trans hk)
  · rw [hfds] at hlookup
    by_cases heq : k = fd
    · rw [if_pos heq] at hlookup
      have hsome : new ≠ none := by
        rw [hlookup]
        exact Option.some_ne_none h'
      refine Or.inr ⟨heq ▸ h.nonneg hfd, stream, heq ▸ hnew hsome, ?_⟩
      rw [hfiles, if_pos rfl]
      exact hlookup
    · rw [if_neg heq] at hlookup
      cases h.standard hlookup with
      | inl habove => exact Or.inl habove
      | inr hstd =>
        obtain ⟨hpos, other, hk, hfile⟩ := hstd
        have hne : other ≠ stream := by
          intro hsame
          rw [hsame, hfd] at hk
          exact heq (Option.some.inj hk).symm
        refine Or.inr ⟨hpos, other, (hgets other hne).trans hk, ?_⟩
        rw [hfiles, if_neg hne]
        exact hfile
  · rw [hfiles] at hlookup
    by_cases heq : other = stream
    · rw [if_pos heq] at hlookup
      have hsome : new ≠ none := by
        rw [hlookup]
        exact Option.some_ne_none h'
      refine ⟨fd, heq ▸ hnew hsome, ?_⟩
      rw [hfds, if_pos rfl]
      exact hlookup
    · rw [if_neg heq] at hlookup
      obtain ⟨k, hk, hold⟩ := h.same hlookup
      have hne : k ≠ fd := by
        intro hsame
        refine halone.1 other heq ⟨?_, hsame ▸ hk⟩
        rw [hlookup]
        exact Option.some_ne_none h'
      refine ⟨k, (hgets other heq).trans hk, ?_⟩
      rw [hfds, if_neg hne]
      exact hold
  · rw [hfds, if_neg fun heq => hk (congrArg some heq)]
  · have hne : other ≠ stream := fun heq => hother (congrArg some heq)
    rw [hfiles, if_neg hne]
    exact ⟨rfl, hgets other hne⟩

/-- A state with the same entries. -/
theorem CrtInv.congr (h : CrtInv env s) (hhandles : HandlesOpen env t.handles t.fds)
    (hroom : t.handles.allocator.handle ≤ 0x100000000) (hfds : t.fds = s.fds)
    (hfiles : ∀ other, t.fileStreams.lookup other = s.fileStreams.lookup other)
    (hgets : ∀ other, t.getStreamFd env other = s.getStreamFd env other) :
    CrtInv env t ∧ s.Frame env t none none := by
  refine ⟨⟨hhandles, hroom, fun hk => h.nonneg ((hgets _).symm.trans hk), fun hlookup => ?_, fun hlookup => ?_⟩,
    fun k _ => by rw [hfds], fun other _ => ⟨hfiles other, hgets other⟩⟩
  · rw [hfds] at hlookup
    simp only [hgets, hfiles]
    exact h.standard hlookup
  · rw [hfiles] at hlookup
    rw [hgets, hfds]
    exact h.same hlookup

/-- A stream that the runtime does not know has no file. -/
theorem CrtInv.unknown_noFile (h : CrtInv env s) (hfd : s.getStreamFd env stream = none) :
    s.fileStreams.lookup stream = none := by
  by_contra hsome
  obtain ⟨handle, hlookup⟩ := Option.ne_none_iff_exists'.mp hsome
  obtain ⟨k, hk, _⟩ := h.same hlookup
  rw [hfd] at hk
  cases hk

theorem HandlesOpen.erase (h : HandlesOpen env s.handles s.fds) (fd : Int) :
    HandlesOpen env s.handles (s.fds.erase fd) := by
  obtain ⟨base, history, hinv, hopen⟩ := h
  refine ⟨base, history, hinv, fun k handle hlookup => hopen k handle ?_⟩
  by_cases hk : k = fd
  · rw [hk, AList.lookup_erase] at hlookup
    cases hlookup
  · rw [AList.lookup_erase_ne hk] at hlookup
    exact hlookup

theorem lookup_erase_ite {α : Type} {β : Type} [DecidableEq α] (table : AList fun _ : α => β) (a k : α) :
    (table.erase a).lookup k = if k = a then none else table.lookup k := by
  by_cases hk : k = a
  · rw [if_pos hk, hk, AList.lookup_erase]
  · rw [if_neg hk, AList.lookup_erase_ne hk]

theorem lookup_insert_ite {α : Type} {β : Type} [DecidableEq α] (table : AList fun _ : α => β) (a k : α) (b : β) :
    (table.insert a b).lookup k = if k = a then some b else table.lookup k := by
  by_cases hk : k = a
  · rw [if_pos hk, hk, AList.lookup_insert]
  · rw [if_neg hk, AList.lookup_insert_ne hk]

theorem CrtInv.fclose (h : CrtInv env s) (hclean : s.Clean env (.fclose stream)) :
    CrtInv env (s.fclose env stream).2 ∧
      CrtStepLaw env s (s.fclose env stream).1 (s.fclose env stream).2 (.fclose stream) := by
  unfold CrtStepLaw CrtState.fclose
  by_cases hnull : stream = 0
  · rw [if_pos hnull]
    exact ⟨h, Or.inl ⟨rfl, rfl⟩⟩
  · rw [if_neg hnull]
    have hkeep : ∀ (fds : AList fun _ : Int => Nat) (other : Nat), other ≠ stream ∨ stream ∉ s.crtStreams →
        ({ s with
          fds := fds
          fileStreams := s.fileStreams.erase stream
          crtStreams := s.crtStreams.filter (· ≠ stream) } : CrtState).getStreamFd env other =
          s.getStreamFd env other := by
      intro fds other hother
      refine getStreamFd_congr rfl rfl ?_
      rw [List.mem_filter, decide_eq_true_eq]
      refine ⟨And.left, fun hin => ⟨hin, fun heq => ?_⟩⟩
      cases hother with
      | inl hne => exact hne heq
      | inr hout => exact hout (heq ▸ hin)
    cases hfd : s.getStreamFd env stream with
    | none =>
      have hnofile := h.unknown_noFile hfd
      have hout : stream ∉ s.crtStreams := by
        intro hin
        unfold CrtState.getStreamFd at hfd
        rw [if_neg fun hno => hno.2 hin] at hfd
        cases hfd
      have hlookup : ∀ other, (s.fileStreams.erase stream).lookup other = s.fileStreams.lookup other := by
        intro other
        rw [lookup_erase_ite]
        by_cases heq : other = stream
        · rw [if_pos heq, heq, hnofile]
        · rw [if_neg heq]
      simp only [hfd]
      obtain ⟨hinv, hframe⟩ := h.congr (t := { s with
          fds := s.fds
          fileStreams := s.fileStreams.erase stream
          crtStreams := s.crtStreams.filter (· ≠ stream) })
        h.handles h.room rfl hlookup fun other => hkeep s.fds other (Or.inr hout)
      exact ⟨hinv, Or.inr ⟨trivial, AList.lookup_erase _ _, fun k _ => hframe.fds k (by simp),
        fun other _ => hframe.streams other (by simp)⟩⟩
    | some fd =>
      have halone := hclean hnull fd hfd
      simp only [hfd]
      obtain ⟨hinv, hframe⟩ := h.assign (t := { s with
          fds := s.fds.erase fd
          fileStreams := s.fileStreams.erase stream
          crtStreams := s.crtStreams.filter (· ≠ stream) }) hfd halone none (h.handles.erase fd) h.room
            (lookup_erase_ite s.fds fd)
        (lookup_erase_ite s.fileStreams stream) (fun other hne => hkeep (s.fds.erase fd) other (Or.inl hne))
        (fun k hk => by
          unfold CrtState.getStreamFd at hk hfd
          split at hk
          next => cases hk
          next hin =>
            split at hfd
            next hout => exact absurd ⟨hout.1, fun hmem => hout.2 (List.mem_filter.mp hmem).1⟩ hin
            next => exact Option.some.inj (hk.symm.trans hfd))
        (fun hne => absurd rfl hne)
      exact ⟨hinv, Or.inr ⟨trivial, AList.lookup_erase _ _, h.lookup_eq hfd halone, AList.lookup_erase _ _, hframe⟩⟩

theorem Opened.assigned (hopened : Opened env s hfile s₁) (h : CrtInv env s) (hfd : s.getStreamFd env stream = some fd)
    (halone : s.Alone env fd stream) (hroom : s.Room) (fds : AList fun _ : Int => Nat)
    (fileStreams : AList fun _ : Nat => Nat)
    (hfds : ∀ k, fds.lookup k = if k = fd then hfile else s.fds.lookup k)
    (hfiles : ∀ other, fileStreams.lookup other = if other = stream then hfile else s.fileStreams.lookup other) :
    CrtInv env { s₁ with fileStreams := fileStreams, fds := fds } ∧
      s.Frame env { s₁ with fileStreams := fileStreams, fds := fds } (some fd) (some stream) := by
  have hgets : ∀ other, ({ s₁ with fileStreams := fileStreams, fds := fds } : CrtState).getStreamFd env other =
      s.getStreamFd env other := fun other => hopened.getStreamFd other
  refine h.assign hfd halone hfile ?_ (hopened.handle_le h.room fun _ => hroom) hfds hfiles
    (fun other _ => hgets other) (fun k hk => ?_) fun _ => (hgets stream).trans hfd
  · refine hopened.handlesOpen h.handles fun k handle hlookup => ?_
    rw [hfds] at hlookup
    by_cases hk : k = fd
    · rw [if_pos hk] at hlookup
      exact Or.inl hlookup
    · rw [if_neg hk] at hlookup
      exact Or.inr hlookup
  · exact Option.some.inj ((hk.symm.trans (hgets stream)).trans hfd)

theorem CrtInv.reopenStream (h : CrtInv env s) {path mode : PyStr}
    (hclean : path ≠ [] → isConsole env path = false →
      ∀ hfile s', s.openStreamFile env path mode = .ok (hfile, s') →
        match s.getStreamFd env stream with
        | some fd => s.Room ∧ s.Alone env fd stream
        | none => hfile = none)
    (hres : s.reopenStream env path mode stream = .ok (rv, s')) :
    CrtInv env s' ∧ CrtStepLaw env s rv s' (.freopen (some path) (some mode) stream) := by
  unfold CrtState.reopenStream at hres
  unfold CrtStepLaw
  split at hres
  next =>
    obtain ⟨rfl, rfl⟩ := Prod.mk.inj (Except.ok.inj hres)
    exact ⟨h, Or.inl (Frame.refl env s)⟩
  next hfile =>
    have hpath : path ≠ [] := fun hnil => hfile (Or.inl hnil)
    have hconsole : isConsole env path = false := by
      cases hc : isConsole env path with
      | false => rfl
      | true => exact absurd (Or.inr hc) hfile
    cases hopen : s.openStreamFile env path mode with
    | error e =>
      rw [hopen] at hres
      cases hres
    | ok opened =>
      obtain ⟨hfile, s₁⟩ := opened
      rw [hopen] at hres
      have hopened := openStreamFile_opened hopen
      have hstep := hclean hpath hconsole hfile s₁ hopen
      cases hfd : s.getStreamFd env stream with
      | none =>
        rw [hfd] at hstep hres
        subst hstep
        obtain ⟨rfl, rfl⟩ := Prod.mk.inj (Except.ok.inj hres)
        have hlookup : ∀ other, (s₁.fileStreams.erase stream).lookup other = s.fileStreams.lookup other := by
          intro other
          rw [lookup_erase_ite, hopened.fileStreams]
          by_cases heq : other = stream
          · rw [if_pos heq, heq, h.unknown_noFile hfd]
          · rw [if_neg heq]
        obtain ⟨hinv, hframe⟩ := h.congr (t := { s₁ with fileStreams := s₁.fileStreams.erase stream, fds := s₁.fds })
          (hopened.inv h rfl).handles (hopened.inv h rfl).room hopened.fds hlookup hopened.getStreamFd
        exact ⟨hinv, Or.inl hframe⟩
      | some fd =>
        rw [hfd] at hstep hres
        obtain ⟨hroom, halone⟩ := hstep
        have hself := h.lookup_eq hfd halone
        cases hfile with
        | none =>
          obtain ⟨rfl, rfl⟩ := Prod.mk.inj (Except.ok.inj hres)
          obtain ⟨hinv, hframe⟩ := hopened.assigned h hfd halone hroom (s₁.fds.erase fd) (s₁.fileStreams.erase stream)
            (hopened.fds ▸ lookup_erase_ite s.fds fd) (hopened.fileStreams ▸ lookup_erase_ite s.fileStreams stream)
          exact ⟨hinv, Or.inr (Or.inr ⟨fd, hfd, (hopened.getStreamFd stream).trans hfd, hself, hframe,
            Or.inl ⟨rfl, AList.lookup_erase _ _, AList.lookup_erase _ _⟩⟩)⟩
        | some handle =>
          obtain ⟨rfl, rfl⟩ := Prod.mk.inj (Except.ok.inj hres)
          obtain ⟨hinv, hframe⟩ := hopened.assigned h hfd halone hroom (s₁.fds.insert fd handle)
            (s₁.fileStreams.insert stream handle) (fun k => hopened.fds ▸ lookup_insert_ite s.fds fd k handle)
            (fun other => hopened.fileStreams ▸ lookup_insert_ite s.fileStreams stream other handle)
          exact ⟨hinv, Or.inr (Or.inr ⟨fd, hfd, (hopened.getStreamFd stream).trans hfd, hself, hframe,
            Or.inr ⟨rfl, handle, AList.lookup_insert _, AList.lookup_insert _⟩⟩)⟩

theorem CrtInv.freopen (h : CrtInv env s) {path mode : Option PyStr} (hclean : s.Clean env (.freopen path mode stream))
    (hres : s.freopen env path mode stream = .ok (rv, s')) :
    CrtInv env s' ∧ CrtStepLaw env s rv s' (.freopen path mode stream) := by
  unfold CrtState.freopen at hres
  split at hres
  next =>
    obtain ⟨rfl, rfl⟩ := Prod.mk.inj (Except.ok.inj hres)
    exact ⟨h, Or.inl (Frame.refl env s)⟩
  next mode₁ =>
    split at hres
    next =>
      obtain ⟨rfl, rfl⟩ := Prod.mk.inj (Except.ok.inj hres)
      exact ⟨h, Or.inl (Frame.refl env s)⟩
    next hnull => exact h.reopenStream (hclean mode₁ rfl hnull) hres

end

section

open CrtState

variable {env : CrtEnv} {s s₀ s' : CrtState} {fd rv : Int} {op : CrtOp}

theorem CrtInv.step (h : CrtInv env s) (hallowed : s.Allowed env op) (hclean : s.Clean env op)
    (hres : s.step env op = .ok (rv, s')) : CrtInv env s' ∧ CrtStepLaw env s rv s' op := by
  cases op with
  | fopen filename mode stream =>
    have hfopen : s.fopen env filename mode stream = .ok (rv, s') := hres
    unfold CrtState.fopen at hfopen
    split at hfopen
    next => exact h.openStream hallowed hclean.1 hclean.2 hfopen
    next =>
      obtain ⟨rfl, rfl⟩ := Prod.mk.inj (Except.ok.inj hfopen)
      exact ⟨h, Or.inl ⟨rfl, Frame.refl env s⟩⟩
  | openFd filename oflag => exact h.openFd hclean hres
  | fdopen fd mode stream =>
    obtain ⟨rfl, rfl⟩ := Prod.mk.inj (Except.ok.inj hres)
    exact h.fdopen hallowed hclean
  | freopen path mode stream => exact h.freopen hclean hres
  | fclose stream =>
    obtain ⟨rfl, rfl⟩ := Prod.mk.inj (Except.ok.inj hres)
    exact h.fclose hclean
  | close fd =>
    obtain ⟨rfl, rfl⟩ := Prod.mk.inj (Except.ok.inj hres)
    exact h.close hallowed

theorem CrtStart.inv (h : CrtStart env s) : CrtInv env s where
  handles := by
    obtain ⟨base, history, hinv⟩ := h.handles
    refine ⟨base, history, hinv, fun fd handle hlookup => ?_⟩
    rw [h.fds] at hlookup
    cases hlookup
  room := h.room
  nonneg := by
    intro stream fd hfd
    unfold CrtState.getStreamFd at hfd
    split at hfd
    next => cases hfd
    next hknown =>
      have hin : s.inIob env stream := by
        by_contra hno
        refine hknown ⟨hno, ?_⟩
        rw [h.crtStreams]
        exact List.not_mem_nil
      obtain ⟨iob, hiob, _⟩ := id hin
      obtain ⟨i, hi, hstream⟩ := inIob_fields hin hiob
      rw [hstream, h.iob iob hiob i hi, signedDword_of_lt (by omega)] at hfd
      rw [← Option.some.inj hfd]
      exact Int.natCast_nonneg i
  standard := by
    intro fd handle hlookup
    rw [h.fds] at hlookup
    cases hlookup
  same := by
    intro stream handle hlookup
    rw [h.fileStreams] at hlookup
    cases hlookup

theorem CrtRun.inv (hs : CrtStart env s₀) (hrun : CrtRun env (fun s op => s.Clean env op) s₀ s) : CrtInv env s := by
  induction hrun with
  | init => exact hs.inv
  | step _ hallowed hclean hres ih => exact (ih.step hallowed hclean hres).1

/-- A descriptor has a handle that is open, and so a file. -/
theorem CrtInv.fileGet (h : CrtInv env s) {handle : Nat} (hlookup : s.fds.lookup fd = some handle) :
    ∃ file, s.fileGet env handle = some file := by
  obtain ⟨base, history, hinv, hopen⟩ := h.handles
  obtain ⟨file, hmem⟩ := hopen fd handle hlookup
  exact ⟨file, (hinv.consistent h.room).get_open env.table handle file hmem handle rfl⟩

theorem getFdFile_of_lookup {handle : Nat} (hlookup : s.fds.lookup fd = some handle) :
    s.getFdFile env fd = s.fileGet env handle := by
  unfold getFdFile
  rw [hlookup]

theorem getStreamFile_of_lookup {stream handle : Nat} (hlookup : s.fileStreams.lookup stream = some handle) :
    s.getStreamFile env stream = s.fileGet env handle := by
  unfold getStreamFile
  rw [hlookup]

theorem CrtInv.law (h : CrtInv env s) : CrtLaw env s where
  descriptor := by
    intro fd handle hlookup
    rw [getFdFile_of_lookup hlookup]
    exact h.fileGet hlookup
  standard := h.standard
  same := by
    intro stream handle hlookup
    obtain ⟨fd, hfd, hfds⟩ := h.same hlookup
    obtain ⟨file, hfile⟩ := h.fileGet hfds
    refine ⟨fd, file, hfd, hfds, ?_, ?_⟩
    · rw [getStreamFile_of_lookup hlookup]
      exact hfile
    · rw [getFdFile_of_lookup hfds]
      exact hfile

/-- While each operation acts on the descriptor of its stream alone, the tables agree and each operation
changes its own entries. -/
theorem crtRun_law (hs : CrtStart env s₀) (hrun : CrtRun env (fun s op => s.Clean env op) s₀ s) :
    CrtLaw env s ∧ ∀ op rv s', s.Allowed env op → s.Clean env op → s.step env op = .ok (rv, s') →
      CrtStepLaw env s rv s' op :=
  ⟨(hrun.inv hs).law, fun _ _ _ hallowed hclean hres => ((hrun.inv hs).step hallowed hclean hres).2⟩

def plainCrt : CrtEnv where
  files := FileManager.plainFiles
  upper := id
  table := 0
  ptrSize := 4

def crtStart : CrtState where
  files := FileManager.initial none
  handles := HandleState.initial true (fun _ => false) (fun _ => some 0) none none
  nextObject := 0
  memory := fun _ => 0
  iob := none
  fileStreams := ∅
  crtStreams := []
  fds := ∅

theorem crtStart_plain : CrtStart plainCrt crtStart where
  fds := rfl
  fileStreams := rfl
  crtStreams := rfl
  iob := fun _ hiob => nomatch hiob
  handles := ⟨_, _, HandleState.inv_initial true (fun _ => false) (fun _ => some 0) none none⟩
  room := by decide

def writeA : CrtOp := .fopen (some ['C', ':', '\\', 'a']) (some ['w']) 0x1000

/-- A file that is opened as the first stream, and closed again. -/
theorem crtRun_law_writeA : ∃ s rv s', crtStart.step plainCrt writeA = .ok (0x1000, s) ∧
    s.step plainCrt (.fclose 0x1000) = .ok (rv, s') ∧ CrtLaw plainCrt s ∧
    CrtStepLaw plainCrt s rv s' (.fclose 0x1000) := by
  refine ⟨_, _, _, rfl, rfl, ?_⟩
  have hfresh : crtStart.Allowed plainCrt writeA :=
    ⟨fun other hother => absurd hother List.not_mem_nil, fun _ hiob => nomatch hiob⟩
  have hrun := @CrtRun.step plainCrt (fun s op => s.Clean plainCrt op) crtStart _ _ writeA _ .init hfresh
    ⟨show crtStart.handles.allocator.allocateHandle.2.handle ≤ 0x100000000 by decide, by decide⟩ rfl
  obtain ⟨hlaw, hsteps⟩ := crtRun_law crtStart_plain hrun
  refine ⟨hlaw, hsteps (.fclose 0x1000) _ _ trivial
    (fun _ fd hfd => ⟨fun other hne howns => howns.1 ?_, fun hnone => ?_⟩) rfl⟩
  · show ((∅ : AList fun _ : Nat => Nat).insert 0x1000 128).lookup other = none
    rw [AList.lookup_insert_ne hne]
    rfl
  · exact nomatch hnone

/-- Two streams of one descriptor: when one is reopened, the other keeps the file that it had. -/
theorem crtRun_not_law : CrtStart plainCrt crtStart ∧
    ∃ s, CrtRun plainCrt (fun _ _ => True) crtStart s ∧ ¬CrtLaw plainCrt s := by
  have hone := @CrtRun.step plainCrt (fun _ _ => True) crtStart _ _ writeA _ .init
    ⟨fun other hother => absurd hother List.not_mem_nil, fun _ hiob => nomatch hiob⟩ trivial rfl
  have htwo := @CrtRun.step plainCrt (fun _ _ => True) crtStart _ _ (.fdopen 3 true 0x2000) _ hone
    ⟨by decide, fun _ hiob => nomatch hiob⟩ trivial rfl
  have hthree := @CrtRun.step plainCrt (fun _ _ => True) crtStart _ _
    (.freopen (some ['C', ':', '\\', 'b']) (some ['w']) 0x1000) _ htwo trivial trivial rfl
  refine ⟨crtStart_plain, _, hthree, fun hlaw => ?_⟩
  obtain ⟨fd, file, hfd, hfds, _, _⟩ := @CrtLaw.same _ _ hlaw 0x2000 128 rfl
  have hsame : 3 = fd := Option.some.inj hfd
  rw [← hsame] at hfds
  exact absurd (show some 132 = some 128 from hfds) (by decide)

end

end Speakeasy
