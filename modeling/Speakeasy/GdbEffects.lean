import Speakeasy.GdbSteps

namespace Speakeasy

section

namespace GdbServer

variable {t : Target} {s s' : GdbServer}

/-- A command replies, replies and ends the session, or starts a resume. -/
theorem command_cases (t : Target) (s : GdbServer) (site : StopSite) (number : Option Nat)
    (payload : Packet) : ∃ library,
    (∃ reply, s.command t site number payload =
      { s with replies := s.replies ++ [(reply, number)], libraryListChanged := library }) ∨
    (∃ reply, s.command t site number payload =
      { s with replies := s.replies ++ [(reply, number)], libraryListChanged := library,
               emulator := .closed }) ∨
    ∃ action, s.command t site number payload =
      { s with libraryListChanged := library, resume := number, emulator := .resuming site action } := by
  refine ⟨s.libraryListChanged && decide (payload ≠ rsp "?"), ?_⟩
  unfold command
  rcases Gdb.answer_cases t (stopReplyText s.stopReason s.libraryListChanged) payload with
    ⟨reply, action, ha, hend⟩ | ⟨action, ha, hend⟩
  · cases action with
    | none =>
      simp only [ha]
      exact Or.inl ⟨reply, rfl⟩
    | some action =>
      have hend := hend action rfl
      simp only [ha, hend]
      exact Or.inr (Or.inl ⟨reply, rfl⟩)
  · simp only [ha, hend]
    refine Or.inr (Or.inr ⟨action, ?_⟩)
    simp

/-- What is taken from the queue. -/
theorem takeCommand_cases {site : StopSite} (h : s.takeCommand t site = some s') :
    (∃ rest, s.commands = .closed :: rest ∧ s' = { s with commands := rest, emulator := .closed }) ∨
    (∃ rest, s.commands = .interrupt :: rest ∧
      s' = { s with commands := rest }.command t site none (rsp "?")) ∨
    ∃ payload rest, s.commands = .packet payload :: rest ∧
      s' = { s with commands := rest, taken := s.taken + 1 }.command t site (some s.taken) payload := by
  unfold takeCommand at h
  split at h
  next => cases h
  next rest hc => exact Or.inl ⟨rest, hc, (Option.some.inj h).symm⟩
  next rest hc => exact Or.inr (Or.inl ⟨rest, hc, (Option.some.inj h).symm⟩)
  next payload rest hc => exact Or.inr (Or.inr ⟨payload, rest, hc, (Option.some.inj h).symm⟩)

theorem afterResume_cases (s : GdbServer) (site : StopSite) (action : ResumeAction)
    (exhausted more : Bool) :
    s.afterResume site action exhausted more = { s with emulator := .ready action } ∨
      ∃ payload, s.afterResume site action exhausted more =
        { s.sendReply payload with emulator := .closed } := by
  unfold afterResume
  cases site with
  | first => exact Or.inl rfl
  | stop fault =>
    cases exhausted with
    | true => exact Or.inr ⟨_, rfl⟩
    | false =>
      cases fault with
      | none => exact Or.inl rfl
      | some signal =>
        cases more with
        | true => exact Or.inl rfl
        | false => exact Or.inr ⟨_, rfl⟩
  | exception =>
    cases more with
    | true => exact Or.inl rfl
    | false => exact Or.inr ⟨_, rfl⟩
  | exit => exact Or.inr ⟨_, rfl⟩

/-- A reason to stop gives a stop reply. -/
theorem decideStop_cases (s : GdbServer) (action : ResumeAction) (reason : Option StopReason)
    (fault : Option Nat) (complete runChanged : Bool) :
    (∃ site stop, s.decideStop action reason fault complete runChanged =
        { s with emulator := .stopping site stop }) ∨
      reason = none ∧ s.decideStop action reason fault complete runChanged =
        { s with emulator := .ready action } := by
  unfold decideStop
  cases fault with
  | some address => exact Or.inl ⟨_, _, rfl⟩
  | none =>
    cases reason with
    | none =>
      by_cases hnext : (runChanged && !complete) = true
      · right
        exact ⟨rfl, if_pos hnext⟩
      · left
        exact ⟨.exit, exitReason, if_neg hnext⟩
    | some stop =>
      left
      by_cases hstep : (!(decide (stop.kind = .step) && complete)) = true
      · have hfilter := Option.filter_some_pos (p := fun reason : StopReason =>
          !(decide (reason.kind = .step) && complete)) hstep
        refine ⟨.stop none, stop, ?_⟩
        simp only [hfilter]
        rfl
      · have hfilter := Option.filter_some_neg (p := fun reason : StopReason =>
          !(decide (reason.kind = .step) && complete)) (Bool.eq_false_iff.mpr hstep)
        -- The emulation is complete, so that no run follows.
        have hcomplete : complete = true := by
          cases complete with
          | true => rfl
          | false => simp at hstep
        refine ⟨.exit, exitReason, ?_⟩
        simp only [hfilter]
        rw [hcomplete]
        exact if_neg (by simp)

/-- The resume in progress is to end with a stop. -/
def StopDue (s : GdbServer) : Prop := s.stopPending = true ∨ s.emulator.stops = true

/-- What a step of the emulator thread does to the resume and the replies. -/
inductive EmulatorEffect (s s' : GdbServer) : Prop
  /-- The resume goes on. -/
  | moves (keeps : s'.owed = s.owed ∧ s'.reader = s.reader)
      (before : s.emulator.inResume = true) (after : s'.emulator.inResume = true)
      (resume : s'.resume = s.resume) (taken : s'.taken = s.taken) (replies : s'.replies = s.replies)
      (commands : s'.commands = s.commands) (fits : s'.emulator.Fits s'.running s'.stopPending)
      (due : StopDue s → StopDue s' ∧ s'.emulator.stepsLeft < s.emulator.stepsLeft)
  /-- The stop reply is sent. -/
  | stops (keeps : s'.owed = s.owed ∧ s'.reader = s.reader)
      (before : s.emulator.inResume = true)
      (after : s'.emulator = .closed ∨ ∃ site, s'.emulator = .clearing site)
      (payload : Packet) (resume : s'.resume = none) (taken : s'.taken = s.taken)
      (replies : s'.replies = s.replies ++ [(payload, s.resume)]) (commands : s'.commands = s.commands)
  | idles (keeps : s'.owed = s.owed ∧ s'.reader = s.reader)
      (before : s.emulator.inResume = false) (after : s'.emulator.inResume = false)
      (resume : s'.resume = s.resume) (taken : s'.taken = s.taken) (replies : s'.replies = s.replies)
      (commands : s'.commands ⊆ s.commands) (fits : s'.emulator.Fits s'.running s'.stopPending)
  /-- The reply to a packet, or to the `?` of a Ctrl-C. -/
  | answers (keeps : s'.owed = s.owed ∧ s'.reader = s.reader)
      (before : s.emulator.inResume = false) (after : s'.emulator.inResume = false)
      (resume : s'.resume = s.resume) (item : QueueItem) (payload : Packet) (number : Option Nat)
      (taken : item = .interrupt ∧ number = none ∧ s'.taken = s.taken ∨
        number = some s.taken ∧ s'.taken = s.taken + 1)
      (replies : s'.replies = s.replies ++ [(payload, number)]) (commands : s.commands = item :: s'.commands)
      (fits : s'.emulator.Fits s'.running s'.stopPending)
  | resumes (keeps : s'.owed = s.owed ∧ s'.reader = s.reader)
      (before : s.emulator.inResume = false) (after : ∃ site action, s'.emulator = .resuming site action)
      (resume : s'.resume = some s.taken) (taken : s'.taken = s.taken + 1)
      (replies : s'.replies = s.replies) (commands : s'.commands ⊆ s.commands)
      (fits : s'.emulator.Fits s'.running s'.stopPending)

theorem StopDue.pending (h : StopDue s) (hs : s.emulator.stops = false) : s.stopPending = true := by
  rcases h with h | h
  · exact h
  · rw [hs] at h
    cases h

theorem command_halt (t : Target) (s : GdbServer) (site : StopSite) (number : Option Nat) :
    s.command t site number (rsp "?") =
      { s with replies := s.replies ++ [(stopReplyText s.stopReason s.libraryListChanged, number)],
               libraryListChanged := false } := by
  have hanswer : ∀ stop, Gdb.answer t stop (rsp "?") = ([stop], none) := by
    intro stop
    have hhandled : Gdb.handleCommand t stop (rsp "?") = Handled.reply stop := by
      unfold Gdb.handleCommand
      rw [if_neg (by decide), if_neg (by decide), if_pos rfl]
    unfold Gdb.answer
    rw [hhandled]
    rfl
  unfold command
  simp only [hanswer]
  simp

theorem takeCommand_effect {site : StopSite} (hs : s.emulator = .loop site) (hshape : Shape s)
    (h : s.takeCommand t site = some s') : EmulatorEffect s s' := by
  have hidle : s.emulator.inResume = false := by rw [hs]; rfl
  have hflags : s.running = false ∧ s.stopPending = false := by
    have := hshape.flags
    rw [hs] at this
    exact this
  rcases takeCommand_cases h with ⟨rest, hc, rfl⟩ | ⟨rest, hc, rfl⟩ | ⟨payload, rest, hc, rfl⟩
  · refine .idles ⟨rfl, rfl⟩ hidle rfl rfl rfl rfl ?_ trivial
    rw [hc]
    exact List.subset_cons_self _ _
  · rw [command_halt]
    exact .answers ⟨rfl, rfl⟩ hidle hidle rfl .interrupt _ none (Or.inl ⟨rfl, rfl, rfl⟩) rfl hc
      hshape.flags
  · obtain ⟨library, hcommand⟩ := command_cases t
      { s with commands := rest, taken := s.taken + 1 } site (some s.taken) payload
    rcases hcommand with ⟨reply, hcommand⟩ | ⟨reply, hcommand⟩ | ⟨action, hcommand⟩
    · rw [hcommand]
      exact .answers ⟨rfl, rfl⟩ hidle hidle rfl (.packet payload) reply (some s.taken) (Or.inr ⟨rfl, rfl⟩)
        rfl hc hshape.flags
    · rw [hcommand]
      exact .answers ⟨rfl, rfl⟩ hidle rfl rfl (.packet payload) reply (some s.taken) (Or.inr ⟨rfl, rfl⟩)
        rfl hc trivial
    · rw [hcommand]
      refine .resumes ⟨rfl, rfl⟩ hidle ⟨site, action, rfl⟩ rfl rfl rfl ?_ hflags
      rw [hc]
      exact List.subset_cons_self _ _

/-- The effect of each step of the emulator thread. -/
theorem emulatorStep_effect {e : GdbEvent} (hshape : Shape s)
    (h : s.emulatorStep t s.emulator e = some s') : EmulatorEffect s s' := by
  have hflags := hshape.flags
  unfold emulatorStep at h
  split at h
  next site hs =>
    cases h
    exact .idles ⟨rfl, rfl⟩ (by rw [hs]; rfl) rfl rfl rfl rfl (List.Subset.refl _) ⟨rfl, rfl⟩
  next site hs => exact takeCommand_effect hs hshape h
  next site action hs =>
    cases h
    refine .moves ⟨rfl, rfl⟩ (by rw [hs]; rfl) rfl rfl rfl rfl rfl trivial ?_
    intro hdue
    have hpending := hdue.pending (by rw [hs]; rfl)
    rw [hs] at hflags
    rw [hflags.2] at hpending
    cases hpending
  next site action exhausted more hs =>
    cases h
    rcases afterResume_cases s site action exhausted more with h | ⟨payload, h⟩
    · rw [h]
      refine .moves ⟨rfl, rfl⟩ (by rw [hs]; rfl) rfl rfl rfl rfl rfl trivial ?_
      intro hdue
      rw [hs]
      exact ⟨Or.inl (hdue.pending (by rw [hs]; rfl)), by show 4 < 5; decide⟩
    · rw [h]
      exact .stops ⟨rfl, rfl⟩ (by rw [hs]; rfl) (Or.inl rfl) payload rfl rfl rfl rfl
  next site action address hs =>
    cases h
    refine .moves ⟨rfl, rfl⟩ (by rw [hs]; rfl) rfl rfl rfl rfl rfl trivial ?_
    rw [hs]
    exact fun _ => ⟨Or.inr rfl, by show 2 < 5; decide⟩
  next action hs =>
    cases h
    refine .moves ⟨rfl, rfl⟩ (by rw [hs]; rfl) rfl rfl rfl rfl rfl trivial ?_
    rw [hs]
    exact fun _ => ⟨Or.inr rfl, by show 1 < 4; decide⟩
  next action hs =>
    cases h
    by_cases hpending : s.stopPending = true
    · have hbegin : s.beginRun action = { s with running := true, emulator := .finishing action } :=
        if_pos hpending
      rw [hbegin]
      refine .moves ⟨rfl, rfl⟩ (by rw [hs]; rfl) rfl rfl rfl rfl rfl trivial ?_
      rw [hs]
      exact fun _ => ⟨Or.inl hpending, by show 3 < 4; decide⟩
    · have hbegin : s.beginRun action =
          { s with running := true, stopReason := {}, emulator := .executing action } := if_neg hpending
      rw [hbegin]
      refine .moves ⟨rfl, rfl⟩ (by rw [hs]; rfl) rfl rfl rfl rfl rfl trivial ?_
      intro hdue
      exact absurd (hdue.pending (by rw [hs]; rfl)) hpending
  next action hs =>
    cases h
    refine .moves ⟨rfl, rfl⟩ (by rw [hs]; rfl) rfl rfl rfl rfl rfl trivial ?_
    intro hdue
    rw [hs]
    exact ⟨Or.inl (hdue.pending (by rw [hs]; rfl)), by show 3 < 4; decide⟩
  next action address hs =>
    cases h
    refine .moves ⟨rfl, rfl⟩ (by rw [hs]; rfl) rfl rfl rfl rfl rfl trivial ?_
    rw [hs]
    exact fun _ => ⟨Or.inr rfl, by show 2 < 4; decide⟩
  next action hs =>
    cases h
    refine .moves ⟨rfl, rfl⟩ (by rw [hs]; rfl) rfl rfl rfl rfl rfl ⟨rfl, ?_⟩ ?_
    · intro hpending
      have hpending : s.stopPending = true := hpending
      rw [if_pos hpending]
      rfl
    · intro hdue
      rw [hs]
      exact ⟨Or.inl (hdue.pending (by rw [hs]; rfl)), by show 2 < 3; decide⟩
  next address hs =>
    cases h
    refine .moves ⟨rfl, rfl⟩ (by rw [hs]; rfl) rfl rfl rfl rfl rfl trivial ?_
    rw [hs]
    exact fun _ => ⟨Or.inr rfl, by show 1 < 2; decide⟩
  next action reason fault complete runChanged hs =>
    cases h
    rcases decideStop_cases s action reason fault complete runChanged with ⟨site, stop, h⟩ | ⟨hnone, h⟩
    · rw [h]
      refine .moves ⟨rfl, rfl⟩ (by rw [hs]; rfl) rfl rfl rfl rfl rfl trivial ?_
      rw [hs]
      exact fun _ => ⟨Or.inr rfl, by show 1 < 2; decide⟩
    · rw [h]
      refine .moves ⟨rfl, rfl⟩ (by rw [hs]; rfl) rfl rfl rfl rfl rfl trivial ?_
      -- No stop is pending, or `finish_run` had given its reason.
      intro hdue
      have hpending := hdue.pending (by rw [hs, hnone]; rfl)
      rw [hs, hnone] at hflags
      cases hflags.2 hpending
  next site reason hs =>
    cases h
    exact .stops ⟨rfl, rfl⟩ (by rw [hs]; rfl) (Or.inr ⟨site, rfl⟩) _ rfl rfl rfl rfl
  next => cases h

end GdbServer

end

section

namespace GdbServer

variable {t : Target} {s s' : GdbServer}

theorem Shape.effect (h : Shape s) (he : EmulatorEffect s s') : Shape s' := by
  cases he with
  | moves keeps before after resume taken replies commands fits due =>
    refine ⟨?_, ?_, fits⟩
    · intro hi
      rw [after] at hi
      cases hi
    · intro _
      rw [taken, resume]
      exact h.active before
  | stops keeps before after payload resume taken replies commands =>
    refine ⟨fun _ => resume, ?_, ?_⟩
    · intro hi
      rcases after with after | ⟨site, after⟩
      · rw [after] at hi
        cases hi
      · rw [after] at hi
        cases hi
    · rcases after with after | ⟨site, after⟩
      · rw [after]
        trivial
      · rw [after]
        trivial
  | idles keeps before after resume taken replies commands fits =>
    refine ⟨fun _ => resume.trans (h.idle before), ?_, fits⟩
    intro hi
    rw [after] at hi
    cases hi
  | answers keeps before after resume item payload number taken replies commands fits =>
    refine ⟨fun _ => resume.trans (h.idle before), ?_, fits⟩
    intro hi
    rw [after] at hi
    cases hi
  | resumes keeps before after resume taken replies commands fits =>
    refine ⟨?_, fun _ => ⟨s.taken, taken, resume⟩, fits⟩
    intro hi
    obtain ⟨site, action, after⟩ := after
    rw [after] at hi
    cases hi

theorem Shape.step (h : Shape s) {e : GdbEvent} (he : s.step t e = some s') : Shape s' := by
  rcases step_cases he with he | he | he
  · exact h.aside (aside_readerStep he)
  · exact h.effect (emulatorStep_effect h he)
  · exact h.aside (aside_hookStep he)

theorem shape_initial : Shape initial := ⟨fun _ => rfl, (fun h => nomatch h), trivial⟩

theorem EmulatorEffect.replies_subset (he : EmulatorEffect s s') : s.replies ⊆ s'.replies := by
  cases he with
  | moves keeps before after resume taken replies => exact replies ▸ List.Subset.refl _
  | stops keeps before after payload resume taken replies => exact replies ▸ List.subset_append_left _ _
  | idles keeps before after resume taken replies => exact replies ▸ List.Subset.refl _
  | answers keeps before after resume item payload number taken replies =>
    exact replies ▸ List.subset_append_left _ _
  | resumes keeps before after resume taken replies => exact replies ▸ List.Subset.refl _

theorem replies_subset_step (h : Shape s) {e : GdbEvent} (he : s.step t e = some s') :
    s.replies ⊆ s'.replies := by
  rcases step_cases he with he | he | he
  · rw [(aside_readerStep he).replies]
    exact List.Subset.refl _
  · exact (emulatorStep_effect h he).replies_subset
  · rw [(aside_hookStep he).replies]
    exact List.Subset.refl _

theorem replies_subset_run (h : Shape s) {events : List GdbEvent} (hrun : s.run t events = some s') :
    s.replies ⊆ s'.replies := by
  induction events generalizing s with
  | nil =>
    cases hrun
    exact List.Subset.refl _
  | cons e events ih =>
    obtain ⟨u, hu, hrun⟩ := Option.bind_eq_some_iff.mp hrun
    exact List.Subset.trans (replies_subset_step h hu) (ih (h.step hu) hrun)

theorem Shape.run (h : Shape s) {events : List GdbEvent} (hrun : s.run t events = some s') : Shape s' := by
  induction events generalizing s with
  | nil =>
    cases hrun
    exact h
  | cons e events ih =>
    obtain ⟨u, hu, hrun⟩ := Option.bind_eq_some_iff.mp hrun
    exact ih (h.step hu) hrun

theorem Shape.inResume (h : Shape s) {n : Nat} (hn : s.resume = some n) : s.emulator.inResume = true := by
  by_contra hidle
  rw [h.idle (Bool.eq_false_iff.mpr hidle)] at hn
  cases hn

theorem StopDue.aside (h : StopDue s) (ha : Aside s s') : StopDue s' := by
  rcases h with h | h
  · exact Or.inl (ha.pending h)
  · exact Or.inr (by rw [ha.emulator]; exact h)

/-- The events of the reader and of the hooks are no progress of the emulator thread. -/
theorem emulatorStep_of_progress {e : GdbEvent} (he : e.isProgress = true) (h : s.step t e = some s') :
    s.emulatorStep t s.emulator e = some s' := by
  rcases step_cases h with h | h | h
  · unfold readerStep at h
    split at h
    next => cases he
    next => cases he
    next => cases he
    next => cases he
    next => cases he
    next => cases h
  · exact h
  · unfold hookStep at h
    split at h
    next => cases he
    next => cases he
    next => cases h

def progress (events : List GdbEvent) : Nat := (events.filter GdbEvent.isProgress).length

/-- A resume that is to end has its reply after the steps that are left, whatever the threads do. -/
theorem StopDue.run (h : Shape s) (hdue : StopDue s) {n : Nat} (hn : s.resume = some n)
    {events : List GdbEvent} (hrun : s.run t events = some s') :
    (∃ payload, (payload, some n) ∈ s'.replies) ∨
      progress events + s'.emulator.stepsLeft ≤ s.emulator.stepsLeft ∧ s'.resume = some n := by
  induction events generalizing s with
  | nil =>
    cases hrun
    exact Or.inr ⟨by show 0 + _ ≤ _; omega, hn⟩
  | cons e events ih =>
    obtain ⟨u, hu, hrun⟩ := Option.bind_eq_some_iff.mp hrun
    have hshape := h.step hu
    have hle : progress (e :: events) ≤ progress events + 1 := by
      unfold progress
      rw [List.filter_cons]
      split
      · exact Nat.le_refl _
      · exact Nat.le_succ _
    have hsame : e.isProgress = false → progress (e :: events) = progress events := by
      intro hp
      unfold progress
      rw [List.filter_cons, hp]
      rfl
    have haside : Aside s u → e.isProgress = false → (∃ payload, (payload, some n) ∈ s'.replies) ∨
        progress (e :: events) + s'.emulator.stepsLeft ≤ s.emulator.stepsLeft ∧ s'.resume = some n := by
      intro ha hp
      rw [hsame hp, ← ha.emulator]
      exact ih hshape (hdue.aside ha) (ha.resume.trans hn) hrun
    have heffect : EmulatorEffect s u → (∃ payload, (payload, some n) ∈ s'.replies) ∨
        progress (e :: events) + s'.emulator.stepsLeft ≤ s.emulator.stepsLeft ∧ s'.resume = some n := by
      intro he
      have hin : s.emulator.inResume ≠ false := by
        rw [h.inResume hn]
        decide
      cases he with
      | moves keeps before after resume taken replies commands fits due =>
        obtain ⟨hdue, hlt⟩ := due hdue
        rcases ih hshape hdue (resume.trans hn) hrun with hreply | ⟨hleft, hn⟩
        · exact Or.inl hreply
        · exact Or.inr ⟨by omega, hn⟩
      | stops keeps before after payload resume taken replies commands =>
        left
        refine ⟨payload, replies_subset_run hshape hrun ?_⟩
        rw [replies, hn]
        exact List.mem_append_right _ List.mem_cons_self
      | idles keeps before => exact absurd before hin
      | answers keeps before => exact absurd before hin
      | resumes keeps before => exact absurd before hin
    cases hp : e.isProgress with
    | true => exact heffect (emulatorStep_effect h (emulatorStep_of_progress hp hu))
    | false =>
      rcases step_cases hu with he | he | he
      · exact haside (aside_readerStep he) hp
      · exact heffect (emulatorStep_effect h he)
      · exact haside (aside_hookStep he) hp

end GdbServer

end

end Speakeasy
