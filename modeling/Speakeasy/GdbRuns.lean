import Speakeasy.GdbEffects

namespace Speakeasy

namespace GdbServer

variable {t : Target} {s s' : GdbServer}

/-- The number of packets that have their reply. -/
def answered (s : GdbServer) : Nat := s.resume.getD s.taken

/-- The reply discipline in one state: the replies are those to the first packets, in order and one for
each, and a resume that a Ctrl-C is to end has its reply after at most 5 steps of the emulator thread. -/
structure ReplyLaw (t : Target) (s : GdbServer) : Prop where
  oneReply : s.replies.map Prod.snd = (List.range s.answered).map some
  interruptEnds : ∀ n ∈ s.owed, s.resume = some n → ∀ events s', s.run t events = some s' →
    5 ≤ progress events → ∃ payload, (payload, some n) ∈ s'.replies

/-- The Ctrl-C is read in a resume or when none is left, and acts before the end of the run. -/
def Timely (t : Target) (s : GdbServer) (e : GdbEvent) : Prop :=
  (e = .ctrlC → s.running = true ∧ (s.resume = none → queuedResume t s.taken s.commands = none)) ∧
    (e = .interrupt → ∀ n ∈ s.resume, s.reader = .interrupting true (some n) →
      s.running = true ∨ s.emulator.stops = true)

def RunTimely (t : Target) : GdbServer → List GdbEvent → Prop
  | _, [] => True
  | s, e :: events => Timely t s e ∧ ∀ s' ∈ s.step t e, RunTimely t s' events

instance (t : Target) (s : GdbServer) (e : GdbEvent) : Decidable (Timely t s e) :=
  inferInstanceAs (Decidable (_ ∧ _))

instance decidableRunTimely (t : Target) : (s : GdbServer) → (events : List GdbEvent) →
    Decidable (RunTimely t s events)
  | _, [] => .isTrue trivial
  | s, e :: events =>
    have (s' : GdbServer) : Decidable (RunTimely t s' events) := decidableRunTimely t s' events
    inferInstanceAs (Decidable (Timely t s e ∧ ∀ s' ∈ s.step t e, RunTimely t s' events))

/-- No `?` of a Ctrl-C is in the queue, and each Ctrl-C that has acted ends its resume. -/
structure Timed (s : GdbServer) : Prop where
  shape : Shape s
  commands : .interrupt ∉ s.commands
  reader : ∀ running due, s.reader = .interrupting running due → running = true ∧ ∀ n ∈ due, n < s.taken
  owed : ∀ n ∈ s.owed, n < s.taken ∧ (s.resume = some n → StopDue s)
  replies : s.replies.map Prod.snd = (List.range s.answered).map some

theorem Timed.law (h : Timed s) : ReplyLaw t s where
  oneReply := h.replies
  interruptEnds n hn hresume events s' hrun hprogress := by
    have hdue := (h.owed n hn).2 hresume
    rcases hdue.run h.shape hresume hrun with hreply | ⟨hleft, hn'⟩
    · exact hreply
    · have hle := s.emulator.stepsLeft_le
      have hpos := EmuThread.stepsLeft_pos ((h.shape.run hrun).inResume hn')
      omega

theorem hookStep_keeps {e : GdbEvent} (h : s.hookStep e = some s') :
    s'.owed = s.owed ∧ s'.reader = s.reader ∧ s'.commands = s.commands := by
  unfold hookStep at h
  split at h
  next reason =>
    split at h
    next =>
      cases h
      obtain ⟨-, -, -, -, howed, hcommands, hreader⟩ := requestStop_keeps s reason
      exact ⟨howed, hreader, hcommands⟩
    next => cases h
  next =>
    split at h
    next =>
      cases h
      obtain ⟨-, -, -, -, howed, hcommands, hreader⟩ :=
        requestStop_keeps { s with libraryListChanged := true } { kind := .library }
      exact ⟨howed, hreader, hcommands⟩
    next => cases h
  next => cases h

/-- Steps beside the emulator thread keep what the Ctrl-Cs that have acted are to end. -/
theorem Timed.owed_aside (h : Timed s) (ha : Aside s s') (n : Nat) (hn : n ∈ s.owed) :
    n < s'.taken ∧ (s'.resume = some n → StopDue s') := by
  rw [ha.taken, ha.resume]
  exact ⟨(h.owed n hn).1, fun hresume => ((h.owed n hn).2 hresume).aside ha⟩

theorem Timed.replies_aside (h : Timed s) (ha : Aside s s') :
    s'.replies.map Prod.snd = (List.range s'.answered).map some := by
  unfold answered
  rw [ha.replies, ha.taken, ha.resume]
  exact h.replies

theorem Timed.readerStep (h : Timed s) {e : GdbEvent} (hs : s.readerStep t s.reader e = some s')
    (he : Timely t s e) : Timed s' := by
  have ha := aside_readerStep hs
  have howed := h.owed_aside ha
  have hreplies := h.replies_aside ha
  have hshape := h.shape.aside ha
  unfold GdbServer.readerStep at hs
  split at hs
  next payload hr =>
    cases hs
    refine ⟨hshape, ?_, h.reader, howed, hreplies⟩
    intro hmem
    rcases List.mem_append.mp hmem with hmem | hmem
    · exact h.commands hmem
    · cases List.mem_singleton.mp hmem
  next hr =>
    cases hs
    refine ⟨hshape, h.commands, ?_, howed, hreplies⟩
    intro running due hreading
    obtain ⟨hrunning, hdue⟩ := ReaderThread.interrupting.inj hreading
    refine ⟨hrunning ▸ (he.1 rfl).1, ?_⟩
    intro n hn
    show n < s.taken
    rw [← hdue] at hn
    unfold dueResume at hn
    cases hresume : s.resume with
    | none =>
      rw [hresume, (he.1 rfl).2 hresume] at hn
      cases hn
    | some m =>
      rw [hresume] at hn
      cases hn
      obtain ⟨k, htaken, hk⟩ := h.shape.active (h.shape.inResume hresume)
      rw [hresume] at hk
      cases hk
      omega
  next hr =>
    cases hs
    refine ⟨hshape, ?_, ?_, howed, hreplies⟩
    · intro hmem
      rcases List.mem_append.mp hmem with hmem | hmem
      · exact h.commands hmem
      · cases List.mem_singleton.mp hmem
    · intro _ _ hreading
      cases hreading
  next running due hr =>
    obtain ⟨hrunning, hdue⟩ := h.reader running due hr
    rw [hrunning] at hs hr
    cases hs
    have hstop : s.interrupt true due = requestStop
        { s with reader := .reading, owed := s.owed ++ due.toList } interruptReason := rfl
    rw [hstop] at hshape howed hreplies ⊢
    obtain ⟨hemulator, hresume, htaken, -, howed', hcommands, hreader⟩ := requestStop_keeps
      { s with reader := .reading, owed := s.owed ++ due.toList } interruptReason
    refine ⟨hshape, ?_, ?_, ?_, hreplies⟩
    · rw [hcommands]
      exact h.commands
    · intro _ _ hreading
      rw [hreader] at hreading
      cases hreading
    · intro n hn
      rw [howed'] at hn
      rcases List.mem_append.mp hn with hn | hn
      · exact howed n hn
      · have hn := Option.mem_toList.mp hn
        rw [htaken]
        refine ⟨hdue n hn, ?_⟩
        intro hres
        rw [hresume] at hres
        have hres : s.resume = some n := hres
        rcases he.2 rfl n hres (by rw [hr, Option.mem_def.mp hn]) with hrun | hstops
        · exact Or.inl (requestStop_pending hrun)
        · exact Or.inr (by rw [hemulator]; exact hstops)
  next hr =>
    cases hs
    obtain ⟨-, -, -, -, howed', hcommands, hreader⟩ :=
      requestStop_keeps { s with reader := .done } interruptReason
    refine ⟨hshape, ?_, ?_, ?_, hreplies⟩
    · rw [hcommands]
      exact h.commands
    · intro _ _ hreading
      rw [hreader] at hreading
      cases hreading
    · intro n hn
      rw [howed'] at hn
      exact howed n hn
  next => cases hs

theorem Timed.hookStep (h : Timed s) {e : GdbEvent} (hs : s.hookStep e = some s') : Timed s' := by
  have ha := aside_hookStep hs
  obtain ⟨howed, hreader, hcommands⟩ := hookStep_keeps hs
  refine ⟨h.shape.aside ha, hcommands ▸ h.commands, ?_, ?_, h.replies_aside ha⟩
  · rw [hreader, ha.taken]
    exact h.reader
  · rw [howed]
    exact h.owed_aside ha

theorem Timed.effect (h : Timed s) (he : EmulatorEffect s s') : Timed s' := by
  have hshape := h.shape.effect he
  cases he with
  | moves keeps before after resume taken replies commands fits due =>
    refine ⟨hshape, commands ▸ h.commands, ?_, ?_, ?_⟩
    · rw [keeps.2, taken]
      exact h.reader
    · rw [keeps.1, taken, resume]
      intro n hn
      exact ⟨(h.owed n hn).1, fun hresume => (due ((h.owed n hn).2 hresume)).1⟩
    · unfold answered
      rw [replies, taken, resume]
      exact h.replies
  | stops keeps before after payload resume taken replies commands =>
    refine ⟨hshape, commands ▸ h.commands, ?_, ?_, ?_⟩
    · rw [keeps.2, taken]
      exact h.reader
    · rw [keeps.1, taken, resume]
      intro n hn
      exact ⟨(h.owed n hn).1, fun hresume => by cases hresume⟩
    · obtain ⟨n, htaken, hn⟩ := h.shape.active before
      have hreplies := h.replies
      unfold answered at hreplies ⊢
      rw [hn, Option.getD_some] at hreplies
      rw [replies, resume, taken, htaken, hn, List.map_append, hreplies, Option.getD_none,
        List.range_succ, List.map_append]
      rfl
  | idles keeps before after resume taken replies commands fits =>
    refine ⟨hshape, fun hmem => h.commands (commands hmem), ?_, ?_, ?_⟩
    · rw [keeps.2, taken]
      exact h.reader
    · rw [keeps.1, taken, resume]
      intro n hn
      refine ⟨(h.owed n hn).1, fun hresume => ?_⟩
      rw [h.shape.idle before] at hresume
      cases hresume
    · unfold answered
      rw [replies, taken, resume]
      exact h.replies
  | answers keeps before after resume item payload number taken replies commands fits =>
    have hnone := h.shape.idle before
    have htaken : number = some s.taken ∧ s'.taken = s.taken + 1 := by
      rcases taken with ⟨hitem, -⟩ | taken
      · have hcommands := h.commands
        rw [commands, hitem] at hcommands
        exact absurd List.mem_cons_self hcommands
      · exact taken
    refine ⟨hshape, ?_, ?_, ?_, ?_⟩
    · intro hmem
      apply h.commands
      rw [commands]
      exact List.mem_cons_of_mem _ hmem
    · rw [keeps.2, htaken.2]
      intro running due hreading
      obtain ⟨hrunning, hdue⟩ := h.reader running due hreading
      exact ⟨hrunning, fun n hn => Nat.lt_succ_of_lt (hdue n hn)⟩
    · rw [keeps.1, htaken.2, resume, hnone]
      intro n hn
      exact ⟨Nat.lt_succ_of_lt (h.owed n hn).1, fun hresume => by cases hresume⟩
    · have hreplies := h.replies
      unfold answered at hreplies ⊢
      rw [hnone, Option.getD_none] at hreplies
      rw [replies, resume, hnone, htaken.1, htaken.2, List.map_append, hreplies, Option.getD_none,
        List.range_succ, List.map_append]
      rfl
  | resumes keeps before after resume taken replies commands fits =>
    have hnone := h.shape.idle before
    refine ⟨hshape, fun hmem => h.commands (commands hmem), ?_, ?_, ?_⟩
    · rw [keeps.2, taken]
      intro running due hreading
      obtain ⟨hrunning, hdue⟩ := h.reader running due hreading
      exact ⟨hrunning, fun n hn => Nat.lt_succ_of_lt (hdue n hn)⟩
    · rw [keeps.1, taken, resume]
      intro n hn
      have hlt := (h.owed n hn).1
      refine ⟨Nat.lt_succ_of_lt hlt, ?_⟩
      -- A Ctrl-C that has acted is older than the new resume.
      intro hresume
      cases hresume
      exact absurd hlt (Nat.lt_irrefl _)
    · have hreplies := h.replies
      unfold answered at hreplies ⊢
      rw [hnone, Option.getD_none] at hreplies
      rw [replies, resume, hreplies, Option.getD_some]

theorem Timed.step (h : Timed s) {e : GdbEvent} (hs : s.step t e = some s') (he : Timely t s e) :
    Timed s' := by
  rcases step_cases hs with hs | hs | hs
  · exact h.readerStep hs he
  · exact h.effect (emulatorStep_effect h.shape hs)
  · exact h.hookStep hs

theorem Timed.run (h : Timed s) {events : List GdbEvent} (htimely : RunTimely t s events)
    (hrun : s.run t events = some s') : Timed s' := by
  induction events generalizing s with
  | nil =>
    cases hrun
    exact h
  | cons e events ih =>
    obtain ⟨u, hu, hrun⟩ := Option.bind_eq_some_iff.mp hrun
    exact ih (h.step hu htimely.1) (htimely.2 u hu) hrun

theorem timed_initial : Timed initial := by
  refine ⟨shape_initial, List.not_mem_nil, ?_, ?_, rfl⟩
  · intro _ _ hreading
    cases hreading
  · intro n hn
    cases hn

/-- In a run whose Ctrl-Cs are timely, every state keeps the reply discipline. -/
theorem run_replyLaw (t : Target) (events : List GdbEvent) (s : GdbServer)
    (htimely : RunTimely t initial events) (hrun : initial.run t events = some s) : ReplyLaw t s :=
  (timed_initial.run htimely hrun).law

/-- A target that fails each command that reads or changes it. -/
def deadTarget : Target where
  readRegisters := .error .other
  writeRegisters _ := .error .other
  readRegister _ := .error .other
  writeRegister _ := .error .other
  readMemory _ := .error .other
  writeMemoryHex _ := .error .other
  writeMemoryBinary _ := .error .other
  changeBreakpoint _ := .error .other
  handleXfer _ := .error .other
  tebAddress := .error .other
  setPc _ := .error .value

/-- The client continues the target, and the first run of the resume executes. -/
def continueTarget : List GdbEvent :=
  [.clear, .packet (rsp "c"), .take, .setRunning, .afterResume false false, .beginRun]

def interruptedRun : List GdbEvent :=
  continueTarget ++ [.ctrlC, .interrupt, .endRun, .finishRun]

theorem run_replyLaw_interruptedRun : ∃ s, initial.run deadTarget interruptedRun = some s ∧
    s.owed = [0] ∧ s.resume = some 0 ∧ ReplyLaw deadTarget s := by
  obtain ⟨s, hs⟩ := Option.isSome_iff_exists.mp
    (show (initial.run deadTarget interruptedRun).isSome = true by decide)
  have howed : (initial.run deadTarget interruptedRun).map (fun s => (s.owed, s.resume)) =
      some ([0], some 0) := by decide
  rw [hs] at howed
  obtain ⟨howed, hresume⟩ := Prod.mk.inj (Option.some.inj howed)
  exact ⟨s, hs, howed, hresume, run_replyLaw deadTarget interruptedRun s (by decide) hs⟩

/-- A Ctrl-C after the first of two runs of a resume. It does not end the resume, and its `?` is
answered after the stop reply. -/
def interruptedBetweenRuns : List GdbEvent :=
  continueTarget ++ [.endRun, .finishRun, .ctrlC, .interrupt, .decide none false true, .beginRun]

theorem run_not_replyLaw : ∃ s, initial.run deadTarget interruptedBetweenRuns = some s ∧
    ¬ ReplyLaw deadTarget s ∧
    (s.run deadTarget [.endRun, .finishRun, .decide none true false, .stopReply, .clear, .take]).map
      (fun s => s.replies.map Prod.snd) = some [some 0, none] := by
  obtain ⟨s, hs⟩ := Option.isSome_iff_exists.mp
    (show (initial.run deadTarget interruptedBetweenRuns).isSome = true by decide)
  have htwice : (initial.run deadTarget interruptedBetweenRuns).bind (fun s => (s.run deadTarget
      [.endRun, .finishRun, .decide none true false, .stopReply, .clear, .take]).map
        (fun s => s.replies.map Prod.snd)) = some [some 0, none] := by decide
  rw [hs] at htwice
  refine ⟨s, hs, fun hlaw => ?_, htwice⟩
  have howed : (initial.run deadTarget interruptedBetweenRuns).map (fun s => (s.owed, s.resume)) =
      some ([0], some 0) := by decide
  have hnext : (initial.run deadTarget interruptedBetweenRuns).bind (fun s => (s.run deadTarget
      [.endRun, .finishRun, .decide none false true, .beginRun, .endRun]).map (·.replies)) =
        some [] := by decide
  rw [hs] at howed hnext
  obtain ⟨howed, hresume⟩ := Prod.mk.inj (Option.some.inj howed)
  obtain ⟨s', hs', hreplies⟩ := Option.map_eq_some_iff.mp hnext
  obtain ⟨payload, hmem⟩ := hlaw.interruptEnds 0 (by rw [howed]; exact List.mem_cons_self) hresume _ s'
    hs' (by decide)
  rw [hreplies] at hmem
  cases hmem

end GdbServer

end Speakeasy
