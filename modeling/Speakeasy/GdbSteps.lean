import Speakeasy.GdbServer

namespace Speakeasy

section

/-- A handler replies once, or resumes or raises without a reply. -/
def Handled.Single (h : Handled) : Prop :=
  (∃ payload action, h = ⟨[payload], .ok action⟩ ∧ ∀ a ∈ action, (a.detach || a.kill) = true) ∨
    (∃ action : ResumeAction, h = ⟨[], .ok (some action)⟩ ∧ (action.detach || action.kill) = false) ∨
    ∃ e, h = ⟨[], .error e⟩

namespace Handled

theorem single_reply (payload : Packet) : (reply payload).Single :=
  Or.inl ⟨payload, none, rfl, fun _ h => nomatch h⟩

theorem single_resume (step : Bool) : (resume { step := step }).Single :=
  Or.inr (Or.inl ⟨_, rfl, rfl⟩)

theorem single_tryReply (caught : PyError → Bool) (x : Except PyError Packet) :
    (tryReply caught x).Single := by
  cases x with
  | ok payload => exact single_reply payload
  | error e =>
    unfold tryReply
    by_cases hc : caught e = true
    · simp only [if_pos hc]
      exact single_reply _
    · simp only [if_neg hc]
      exact Or.inr (Or.inr ⟨e, rfl⟩)

end Handled

namespace Gdb

open Handled

theorem single_threadCommand (payload : Packet) : (threadCommand payload).Single := by
  unfold threadCommand
  split
  · exact single_reply _
  · exact single_reply _

theorem single_resumeCommand (actions : Packet) : (resumeCommand actions).Single := by
  unfold resumeCommand
  simp only
  split
  · exact single_resume _
  · exact single_reply _

theorem single_resumeAt (t : Target) (payload : Packet) : (resumeAt t payload).Single := by
  unfold resumeAt
  simp only
  split
  · exact single_resume _
  · split
    next => exact single_resume _
    next => exact single_reply _
    next e _ _ => exact Or.inr (Or.inr ⟨e, rfl⟩)

theorem single_close (payload : Packet) {action : ResumeAction}
    (h : (action.detach || action.kill) = true) : (⟨[payload], .ok (some action)⟩ : Handled).Single :=
  Or.inl ⟨payload, some action, rfl, fun _ ha => Option.some.inj ha ▸ h⟩

theorem single_ite {p : Prop} [Decidable p] {a b : Handled} (ha : a.Single) (hb : b.Single) :
    (if p then a else b).Single := by
  split
  · exact ha
  · exact hb

theorem single_handleCommand (t : Target) (stop payload : Packet) :
    (handleCommand t stop payload).Single := by
  unfold handleCommand readRegister writeRegister
  refine single_ite (single_reply _) ?_
  refine single_ite (single_reply _) ?_
  refine single_ite (single_reply _) ?_
  refine single_ite (single_tryReply _ _) ?_
  refine single_ite (single_tryReply _ _) ?_
  refine single_ite (single_tryReply _ _) ?_
  refine single_ite (single_tryReply _ _) ?_
  refine single_ite (single_tryReply _ _) ?_
  refine single_ite (single_tryReply _ _) ?_
  refine single_ite (single_tryReply _ _) ?_
  refine single_ite (single_tryReply _ _) ?_
  refine single_ite (single_tryReply _ _) ?_
  refine single_ite (single_reply _) ?_
  refine single_ite (single_reply _) ?_
  refine single_ite (single_reply _) ?_
  refine single_ite (single_reply _) ?_
  refine single_ite (single_tryReply _ _) ?_
  refine single_ite (single_reply _) ?_
  refine single_ite (single_threadCommand _) ?_
  refine single_ite (single_reply _) ?_
  refine single_ite (single_reply _) ?_
  refine single_ite (single_resumeCommand _) ?_
  refine single_ite (single_resumeAt t payload) ?_
  refine single_ite (single_close _ rfl) ?_
  refine single_ite (single_close _ rfl) ?_
  exact single_ite (single_close _ rfl) (single_reply _)

/-- Each command has one reply, but a resume, whose reply is the stop reply. -/
theorem answer_cases (t : Target) (stop payload : Packet) :
    (∃ reply action, answer t stop payload = ([reply], action) ∧
        ∀ a ∈ action, (a.detach || a.kill) = true) ∨
      ∃ action : ResumeAction, answer t stop payload = ([], some action) ∧
        (action.detach || action.kill) = false := by
  unfold answer
  rcases single_handleCommand t stop payload with ⟨reply, action, hh, ha⟩ | ⟨action, hh, ha⟩ | ⟨e, hh⟩
  · rw [hh]
    exact Or.inl ⟨reply, action, rfl, ha⟩
  · rw [hh]
    exact Or.inr ⟨action, rfl, ha⟩
  · rw [hh]
    exact Or.inl ⟨rsp "E01", none, rfl, fun _ h => nomatch h⟩

end Gdb

end

section

namespace EmuThread

/-- A resume packet has no stop reply yet. -/
def inResume : EmuThread → Bool
  | .clearing _ | .loop _ | .closed => false
  | _ => true

/-- The flags that the thread has left where no run executes. -/
def Fits (running pending : Bool) : EmuThread → Prop
  | .loop _ | .resuming .. => running = false ∧ pending = false
  | .finished _ reason => running = false ∧ (pending = true → reason.isSome = true)
  | _ => True

/-- The thread is on the way to a stop reply, whatever the flags are. -/
def stops : EmuThread → Bool
  | .failing _ | .finished _ (some _) | .stopping .. => true
  | _ => false

/-- The steps up to the stop reply, when a stop is pending. -/
def stepsLeft : EmuThread → Nat
  | .resuming .. | .resumed .. => 5
  | .ready _ | .executing _ => 4
  | .finishing _ => 3
  | .failing _ | .finished .. => 2
  | .stopping .. => 1
  | _ => 0

theorem stepsLeft_le (emulator : EmuThread) : emulator.stepsLeft ≤ 5 := by
  cases emulator with
  | resuming => exact Nat.le_refl 5
  | resumed => exact Nat.le_refl 5
  | _ => exact Nat.le_of_ble_eq_true rfl

theorem stepsLeft_pos {emulator : EmuThread} (h : emulator.inResume = true) : 0 < emulator.stepsLeft := by
  cases emulator with
  | clearing => cases h
  | loop => cases h
  | closed => cases h
  | _ => exact Nat.succ_pos _

end EmuThread

namespace GdbServer

variable {t : Target} {s s' : GdbServer}

structure Shape (s : GdbServer) : Prop where
  idle : s.emulator.inResume = false → s.resume = none
  active : s.emulator.inResume = true → ∃ n, s.taken = n + 1 ∧ s.resume = some n
  flags : s.emulator.Fits s.running s.stopPending

theorem step_cases {e : GdbEvent} (h : s.step t e = some s') :
    s.readerStep t s.reader e = some s' ∨ s.emulatorStep t s.emulator e = some s' ∨
      s.hookStep e = some s' := by
  unfold step at h
  rcases Option.or_eq_some_iff.mp h with h | ⟨-, h⟩
  · exact Or.inl h
  · rcases Option.or_eq_some_iff.mp h with h | ⟨-, h⟩
    · exact Or.inr (Or.inl h)
    · exact Or.inr (Or.inr h)

theorem requestStop_cases (s : GdbServer) (reason : StopReason) :
    s.requestStop reason = s ∨
      s.running = true ∧ s.requestStop reason = { s with stopReason := reason, stopPending := true } := by
  unfold requestStop
  by_cases hr : (!s.running || s.stopPending) = true
  · rw [if_pos hr]
    exact Or.inl rfl
  · rw [if_neg hr]
    simp only [Bool.or_eq_true, Bool.not_eq_true', not_or, Bool.not_eq_false] at hr
    exact Or.inr ⟨hr.1, rfl⟩

theorem requestStop_pending {reason : StopReason} (h : s.running = true) :
    (s.requestStop reason).stopPending = true := by
  unfold requestStop
  split
  next hr =>
    rw [h] at hr
    simpa using hr
  next => rfl

theorem requestStop_keeps (s : GdbServer) (reason : StopReason) :
    (s.requestStop reason).emulator = s.emulator ∧ (s.requestStop reason).resume = s.resume ∧
      (s.requestStop reason).taken = s.taken ∧ (s.requestStop reason).replies = s.replies ∧
      (s.requestStop reason).owed = s.owed ∧ (s.requestStop reason).commands = s.commands ∧
      (s.requestStop reason).reader = s.reader := by
  rcases requestStop_cases s reason with h | ⟨-, h⟩
  · rw [h]
    exact ⟨rfl, rfl, rfl, rfl, rfl, rfl, rfl⟩
  · rw [h]
    exact ⟨rfl, rfl, rfl, rfl, rfl, rfl, rfl⟩

/-- Steps that change neither the emulator thread nor the replies. -/
structure Aside (s s' : GdbServer) : Prop where
  emulator : s'.emulator = s.emulator
  taken : s'.taken = s.taken
  resume : s'.resume = s.resume
  replies : s'.replies = s.replies
  pending : s.stopPending = true → s'.stopPending = true
  flags : s.emulator.Fits s.running s.stopPending → s'.emulator.Fits s'.running s'.stopPending

theorem fits_pending {emulator : EmuThread} (h : emulator.Fits true s.stopPending) :
    emulator.Fits true true := by
  cases emulator with
  | loop => exact absurd h.1 (by decide)
  | resuming => exact absurd h.1 (by decide)
  | finished => exact absurd h.1 (by decide)
  | _ => trivial

theorem aside_requestStop (s : GdbServer) (reason : StopReason) : Aside s (s.requestStop reason) := by
  rcases requestStop_cases s reason with h | ⟨hr, h⟩
  · rw [h]
    exact ⟨rfl, rfl, rfl, rfl, fun hp => hp, fun hf => hf⟩
  · rw [h]
    refine ⟨rfl, rfl, rfl, rfl, fun _ => rfl, ?_⟩
    intro hf
    show s.emulator.Fits s.running true
    rw [hr] at hf ⊢
    exact fits_pending hf

theorem Aside.trans {s₁ s₂ s₃ : GdbServer} (h : Aside s₁ s₂) (h' : Aside s₂ s₃) : Aside s₁ s₃ where
  emulator := h'.emulator.trans h.emulator
  taken := h'.taken.trans h.taken
  resume := h'.resume.trans h.resume
  replies := h'.replies.trans h.replies
  pending := h'.pending ∘ h.pending
  flags := h'.flags ∘ h.flags

theorem aside_readerStep {e : GdbEvent} (h : s.readerStep t s.reader e = some s') : Aside s s' := by
  have hrefl : ∀ {s' : GdbServer}, s'.emulator = s.emulator → s'.taken = s.taken → s'.resume = s.resume →
      s'.replies = s.replies → s'.stopPending = s.stopPending → s'.running = s.running → Aside s s' := by
    intro s' h₁ h₂ h₃ h₄ h₅ h₆
    exact ⟨h₁, h₂, h₃, h₄, fun h => h₅.trans h, fun h => by rw [h₁, h₅, h₆]; exact h⟩
  unfold readerStep at h
  split at h
  next =>
    cases h
    exact hrefl rfl rfl rfl rfl rfl rfl
  next =>
    cases h
    exact hrefl rfl rfl rfl rfl rfl rfl
  next =>
    cases h
    exact hrefl rfl rfl rfl rfl rfl rfl
  next running due =>
    cases h
    unfold interrupt
    simp only
    split
    next =>
      refine Aside.trans ?_ (aside_requestStop _ _)
      exact hrefl rfl rfl rfl rfl rfl rfl
    next => exact hrefl rfl rfl rfl rfl rfl rfl
  next =>
    cases h
    refine Aside.trans ?_ (aside_requestStop _ _)
    exact hrefl rfl rfl rfl rfl rfl rfl
  next => cases h

theorem aside_hookStep {e : GdbEvent} (h : s.hookStep e = some s') : Aside s s' := by
  unfold hookStep at h
  split at h
  next reason =>
    split at h
    next =>
      cases h
      exact aside_requestStop s reason
    next => cases h
  next =>
    split at h
    next =>
      cases h
      refine Aside.trans ?_ (aside_requestStop _ _)
      exact ⟨rfl, rfl, rfl, rfl, fun h => h, fun h => h⟩
    next => cases h
  next => cases h

theorem Shape.aside (h : Shape s) (ha : Aside s s') : Shape s' where
  idle hi := by
    rw [ha.emulator] at hi
    rw [ha.resume]
    exact h.idle hi
  active hi := by
    rw [ha.emulator] at hi
    rw [ha.taken, ha.resume]
    exact h.active hi
  flags := ha.flags h.flags

end GdbServer

end

end Speakeasy
