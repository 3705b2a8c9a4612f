import Mathlib.Data.List.Basic
import Mathlib.Logic.Function.Basic

namespace Speakeasy

/-- A run of the queue. Two runs are the same if they have the same `id`. -/
structure ThreadRun where
  id : Nat
  thread : Option Nat
  process : Option Nat
deriving DecidableEq, Repr

/-- The runs of the emulator. `runs` are those that were started, and `created` records the threads that
`create_thread` returned, which the source does not keep. -/
structure ThreadScheduler where
  maxRuns : Nat
  isKernelMode : Bool
  runQueue : List ThreadRun
  suspendedRuns : List ThreadRun
  runs : List ThreadRun
  suspendCount : Nat → Int
  process : Nat → Option Nat
  currentThread : Option Nat
  childProcesses : List Nat
  isModified : Nat → Bool
  nextThread : Nat
  nextRun : Nat
  created : List Nat

def invalidSuspendCount : Int := 0xFFFFFFFF

namespace ThreadScheduler

def initial (maxRuns : Nat) (isKernelMode : Bool) : ThreadScheduler where
  maxRuns := maxRuns
  isKernelMode := isKernelMode
  runQueue := []
  suspendedRuns := []
  runs := []
  suspendCount _ := 0
  process _ := none
  currentThread := none
  childProcesses := []
  isModified _ := false
  nextThread := 0
  nextRun := 0
  created := []

/-- A new thread object of a process. -/
def newThread (s : ThreadScheduler) (process : Option Nat) : ThreadScheduler × Nat :=
  ({ s with
      nextThread := s.nextThread + 1
      suspendCount := Function.update s.suspendCount s.nextThread 0
      process := Function.update s.process s.nextThread process }, s.nextThread)

def setSuspendCount (s : ThreadScheduler) (t : Nat) (n : Int) : ThreadScheduler :=
  { s with suspendCount := Function.update s.suspendCount t n }

def createThread (s : ThreadScheduler) (process : Option Nat) (isSuspended : Bool) :
    ThreadScheduler × Option Nat :=
  if s.maxRuns ≤ s.runQueue.length then (s, none)
  else
    let (s, thread) := s.newThread process
    let run : ThreadRun := ⟨s.nextRun, some thread, process⟩
    let s := { s with nextRun := s.nextRun + 1, created := thread :: s.created }
    if isSuspended then
      ({ s.setSuspendCount thread 1 with suspendedRuns := s.suspendedRuns ++ [run] }, some thread)
    else ({ s with runQueue := s.runQueue ++ [run] }, some thread)

/-- `resume_thread`. -/
def resumeRun (s : ThreadScheduler) (thread : Nat) : ThreadScheduler × Bool :=
  match s.suspendedRuns.find? fun r => r.thread = some thread with
  | some r => ({ s with suspendedRuns := s.suspendedRuns.erase r, runQueue := s.runQueue ++ [r] }, true)
  | none => (s, false)

/-- The end of `ResumeThread`: the main thread of a child process whose memory was modified gets a run
of its own. -/
def resumeChild (s : ThreadScheduler) (thread : Nat) : ThreadScheduler :=
  match s.process thread with
  | none => s
  | some p =>
    if p ∈ s.childProcesses ∧ s.isModified p = true then
      let s := (s.createThread (some p) false).1
      { s with childProcesses := s.childProcesses.erase p }
    else s

/-- `ResumeThread`, where `obj` is what the handle table has for the handle. -/
def resumeThread (s : ThreadScheduler) (obj : Option Nat) : ThreadScheduler × Int :=
  match obj with
  | none => (s, invalidSuspendCount)
  | some t =>
    let rv := s.suspendCount t
    let s := if 0 < rv then s.setSuspendCount t (rv - 1) else s
    if rv ≠ 1 then (s, rv)
    else
      let (s, resumed) := s.resumeRun t
      if resumed then (s, rv) else (s.resumeChild t, rv)

/-- `SuspendThread`. -/
def suspendThread (s : ThreadScheduler) (obj : Option Nat) : ThreadScheduler × Int :=
  match obj with
  | none => (s, invalidSuspendCount)
  | some t =>
    let rv := s.suspendCount t
    let s := s.setSuspendCount t (rv + 1)
    if rv = 0 ∧ s.currentThread ≠ some t then
      match s.runQueue.find? fun r => r.thread = some t with
      | some r =>
        ({ s with runQueue := s.runQueue.erase r, suspendedRuns := s.suspendedRuns ++ [r] }, rv)
      | none => (s, rv)
    else (s, rv)

/-- The start of the first run in the queue. A user mode run without a thread gets one. -/
def startRun (s : ThreadScheduler) : ThreadScheduler :=
  match s.runQueue with
  | [] => s
  | r :: queue =>
    let s := { s with runQueue := queue }
    match r.thread with
    | some t => { s with runs := s.runs ++ [r], currentThread := some t }
    | none =>
      if s.isKernelMode then { s with runs := s.runs ++ [r] }
      else
        let (s, t) := s.newThread r.process
        { s with runs := s.runs ++ [{ r with thread := some t }], currentThread := some t }

/-- `add_run` of a run without a thread, or of the run of a new main thread. -/
def addRun (s : ThreadScheduler) (main : Bool) (process : Option Nat) : ThreadScheduler :=
  if main then
    let (s, t) := s.newThread process
    { s with nextRun := s.nextRun + 1, runQueue := s.runQueue ++ [⟨s.nextRun, some t, process⟩] }
  else { s with nextRun := s.nextRun + 1, runQueue := s.runQueue ++ [⟨s.nextRun, none, process⟩] }

/-- `CreateProcess` of a child with its main thread. -/
def createProcess (s : ThreadScheduler) (p : Nat) (isSuspended : Bool) : ThreadScheduler :=
  let (s, t) := s.newThread (some p)
  let s := { s with childProcesses := s.childProcesses ++ [p] }
  if isSuspended then s.setSuspendCount t 1 else s

end ThreadScheduler

inductive SchedulerOp
  | createThread (process : Option Nat) (isSuspended : Bool)
  | suspend (obj : Option Nat)
  | resume (obj : Option Nat)
  | start
  | addRun (main : Bool) (process : Option Nat)
  | createProcess (p : Nat) (isSuspended : Bool)
  | modify (p : Nat)
deriving DecidableEq, Repr

namespace ThreadScheduler

def step (s : ThreadScheduler) : SchedulerOp → ThreadScheduler
  | .createThread process isSuspended => (s.createThread process isSuspended).1
  | .suspend obj => (s.suspendThread obj).1
  | .resume obj => (s.resumeThread obj).1
  | .start => s.startRun
  | .addRun main process => s.addRun main process
  | .createProcess p isSuspended => s.createProcess p isSuspended
  | .modify p => { s with isModified := Function.update s.isModified p true }

/-- The threads that the caller of an operation gets from `create_thread`. -/
def returned (s : ThreadScheduler) : SchedulerOp → List Nat
  | .createThread process isSuspended => (s.createThread process isSuspended).2.toList
  | _ => []

/-- The states that operations reach, with the threads that they returned. -/
inductive Reaches (s₀ : ThreadScheduler) : ThreadScheduler → List Nat → Prop
  | start : Reaches s₀ s₀ []
  | next {s : ThreadScheduler} {made : List Nat} (op : SchedulerOp) : Reaches s₀ s made →
      Reaches s₀ (s.step op) (s.returned op ++ made)

def allRuns (s : ThreadScheduler) : List ThreadRun := s.runQueue ++ s.suspendedRuns ++ s.runs

def runCount (s : ThreadScheduler) (t : Nat) : Nat := s.allRuns.countP fun r => r.thread = some t

def Started (s : ThreadScheduler) (t : Nat) : Prop := ∃ r ∈ s.runs, r.thread = some t

def Suspended (s : ThreadScheduler) (t : Nat) : Prop := ∃ r ∈ s.suspendedRuns, r.thread = some t

/-- No run of a created thread is lost or doubled, and none is started while its thread is suspended. Each
creation that succeeded made another thread, and one that fails changes nothing. -/
structure RunsKept (s : ThreadScheduler) (made : List Nat) : Prop where
  made_created : ∀ t ∈ made, t ∈ s.created
  made_nodup : made.Nodup
  creation_fails : ∀ process isSuspended, (s.createThread process isSuspended).2 = none ↔
    s.maxRuns ≤ s.runQueue.length
  failed_creation : ∀ process isSuspended, (s.createThread process isSuspended).2 = none →
    (s.createThread process isSuspended).1 = s
  once : ∀ t ∈ s.created, s.runCount t = 1
  suspended_iff : ∀ t ∈ s.created, ¬ s.Started t → (s.Suspended t ↔ 0 < s.suspendCount t)
  start_ready : ∀ r queue t, s.runQueue = r :: queue → r.thread = some t → t ∈ s.created →
    s.suspendCount t = 0 ∧ ¬ s.Suspended t
  nonneg : ∀ t, 0 ≤ s.suspendCount t
  suspend_count : ∀ t, (s.suspendThread (some t)).2 = s.suspendCount t ∧
    (s.suspendThread (some t)).1.suspendCount t = s.suspendCount t + 1
  resume_count : ∀ t ∈ s.created, (s.resumeThread (some t)).2 = s.suspendCount t ∧
    (s.resumeThread (some t)).1.suspendCount t = max (s.suspendCount t - 1) 0

end ThreadScheduler

section

namespace ThreadScheduler

/-- The run of a thread is in the list. -/
def HasRun (runs : List ThreadRun) (t : Nat) : Prop := ∃ r ∈ runs, r.thread = some t

theorem hasRun_append {xs ys : List ThreadRun} {t : Nat} :
    HasRun (xs ++ ys) t ↔ HasRun xs t ∨ HasRun ys t := by
  simp only [HasRun, List.mem_append, or_and_right, exists_or]

theorem hasRun_singleton {r : ThreadRun} {t : Nat} : HasRun [r] t ↔ r.thread = some t := by
  simp [HasRun]

theorem hasRun_iff_countP {runs : List ThreadRun} {t : Nat} :
    HasRun runs t ↔ 0 < runs.countP fun r => r.thread = some t := by
  rw [List.countP_pos_iff]
  simp [HasRun]

theorem HasRun.of_erase {runs : List ThreadRun} {r : ThreadRun} {t : Nat}
    (h : HasRun (runs.erase r) t) : HasRun runs t := by
  obtain ⟨r', hr, ht⟩ := h
  exact ⟨r', List.mem_of_mem_erase hr, ht⟩

/-- The only run of a thread is gone when it is erased. -/
theorem not_hasRun_erase {runs : List ThreadRun} {r : ThreadRun} {t : Nat} (hr : r ∈ runs)
    (ht : r.thread = some t) (hone : (runs.countP fun r => r.thread = some t) ≤ 1) :
    ¬ HasRun (runs.erase r) t := by
  rw [hasRun_iff_countP]
  rw [(List.perm_cons_erase hr).countP_eq, List.countP_cons_of_pos (by simpa using ht)] at hone
  omega

theorem find?_thread {runs : List ThreadRun} {t : Nat} {r : ThreadRun}
    (h : runs.find? (fun r => r.thread = some t) = some r) : r ∈ runs ∧ r.thread = some t :=
  ⟨List.mem_of_find?_eq_some h, by simpa using List.find?_some h⟩

theorem find?_thread_none {runs : List ThreadRun} {t : Nat}
    (h : runs.find? (fun r => r.thread = some t) = none) : ¬ HasRun runs t := by
  rintro ⟨r, hr, ht⟩
  have := List.find?_eq_none.mp h r hr
  simp [ht] at this

/-- What holds of the lists, the suspend counts and the current thread. -/
structure Inv (s : ThreadScheduler) : Prop where
  once : ∀ t ∈ s.created, s.runCount t = 1
  run_lt : ∀ t, HasRun s.allRuns t → t < s.nextThread
  created_lt : ∀ t ∈ s.created, t < s.nextThread
  current_lt : ∀ t, s.currentThread = some t → t < s.nextThread
  suspended : ∀ t ∈ s.created, HasRun s.suspendedRuns t → 0 < s.suspendCount t
  queued : ∀ t ∈ s.created, HasRun s.runQueue t → s.suspendCount t = 0
  current : ∀ t ∈ s.created, s.currentThread = some t → HasRun s.runs t
  nonneg : ∀ t, 0 ≤ s.suspendCount t

variable {s : ThreadScheduler}

theorem runCount_eq (s : ThreadScheduler) (t : Nat) : s.runCount t =
    (s.runQueue.countP fun r => r.thread = some t) +
      (s.suspendedRuns.countP fun r => r.thread = some t) +
        s.runs.countP fun r => r.thread = some t := by
  rw [runCount, allRuns, List.countP_append, List.countP_append]

theorem Inv.not_queued_of_started (h : Inv s) {t : Nat} (ht : t ∈ s.created) (hr : HasRun s.runs t) :
    ¬ HasRun s.runQueue t := by
  intro hq
  have hone := h.once t ht
  rw [runCount_eq] at hone
  have := hasRun_iff_countP.mp hr
  have := hasRun_iff_countP.mp hq
  omega

theorem Inv.queue_le_one (h : Inv s) {t : Nat} (ht : t ∈ s.created) :
    (s.runQueue.countP fun r => r.thread = some t) ≤ 1 ∧
      (s.suspendedRuns.countP fun r => r.thread = some t) ≤ 1 := by
  have hone := h.once t ht
  rw [runCount_eq] at hone
  omega

theorem inv_initial (maxRuns : Nat) (isKernelMode : Bool) : Inv (initial maxRuns isKernelMode) where
  once := by simp [initial]
  run_lt := by simp [HasRun, allRuns, initial]
  created_lt := by simp [initial]
  current_lt := by simp [initial]
  suspended := by simp [initial]
  queued := by simp [initial]
  current := by simp [initial]
  nonneg := by simp [initial]

theorem Inv.newThread (h : Inv s) (process : Option Nat) : Inv (s.newThread process).1 where
  once := h.once
  run_lt t ht := Nat.lt_succ_of_lt (h.run_lt t ht)
  created_lt t ht := Nat.lt_succ_of_lt (h.created_lt t ht)
  current_lt t ht := Nat.lt_succ_of_lt (h.current_lt t ht)
  suspended t ht hr := by
    show 0 < Function.update s.suspendCount s.nextThread 0 t
    rw [Function.update_of_ne (Nat.ne_of_lt (h.created_lt t ht))]
    exact h.suspended t ht hr
  queued t ht hr := by
    show Function.update s.suspendCount s.nextThread 0 t = 0
    rw [Function.update_of_ne (Nat.ne_of_lt (h.created_lt t ht))]
    exact h.queued t ht hr
  current := h.current
  nonneg t := by
    show 0 ≤ Function.update s.suspendCount s.nextThread 0 t
    by_cases ht : t = s.nextThread
    · have hzero : Function.update s.suspendCount s.nextThread 0 t = 0 := by
        rw [ht, Function.update_self]
      exact Int.le_of_eq hzero.symm
    · rw [Function.update_of_ne ht]
      exact h.nonneg t

/-- Runs that are moved between the queue and the suspended runs, with counts that agree. -/
theorem Inv.move (h : Inv s) (count : Nat → Int) {queue suspended : List ThreadRun}
    (hperm : (queue ++ suspended).Perm (s.runQueue ++ s.suspendedRuns))
    (hsuspended : ∀ t ∈ s.created, HasRun suspended t → 0 < count t)
    (hqueued : ∀ t ∈ s.created, HasRun queue t → count t = 0) (hnonneg : ∀ t, 0 ≤ count t) :
    Inv { s with runQueue := queue, suspendedRuns := suspended, suspendCount := count } := by
  have hall := hperm.append_right s.runs
  refine ⟨?_, ?_, h.created_lt, h.current_lt, hsuspended, hqueued, h.current, hnonneg⟩
  · intro t ht
    exact (hall.countP_eq _).trans (h.once t ht)
  · rintro t ⟨r, hr, ht⟩
    exact h.run_lt t ⟨r, hall.mem_iff.mp hr, ht⟩

/-- A count that agrees with the lists. -/
theorem Inv.setSuspendCount (h : Inv s) {t : Nat} {n : Int} (hn : 0 ≤ n)
    (hsuspended : t ∈ s.created → HasRun s.suspendedRuns t → 0 < n)
    (hqueued : t ∈ s.created → HasRun s.runQueue t → n = 0) : Inv (s.setSuspendCount t n) := by
  apply h.move (Function.update s.suspendCount t n) (List.Perm.refl _)
  · intro t' ht hr
    by_cases heq : t' = t
    · subst heq
      rw [Function.update_self]
      exact hsuspended ht hr
    · rw [Function.update_of_ne heq]
      exact h.suspended t' ht hr
  · intro t' ht hr
    by_cases heq : t' = t
    · subst heq
      rw [Function.update_self]
      exact hqueued ht hr
    · rw [Function.update_of_ne heq]
      exact h.queued t' ht hr
  · intro t'
    by_cases heq : t' = t
    · rw [heq, Function.update_self]
      exact hn
    · rw [Function.update_of_ne heq]
      exact h.nonneg t'

/-- A new run of a thread that no list has yet. -/
theorem Inv.addRuns (h : Inv s) (queue suspended : List ThreadRun) (n : Nat) (created : List Nat)
    (hcreated : ∀ t ∈ created, t ∈ s.created ∨ t < s.nextThread ∧ ¬ HasRun s.allRuns t ∧
      ((queue ++ suspended).countP fun r => r.thread = some t) = 1 ∧
      (HasRun suspended t → 0 < s.suspendCount t) ∧ (HasRun queue t → s.suspendCount t = 0) ∧
      s.currentThread ≠ some t)
    (hnew : ∀ t, HasRun (queue ++ suspended) t → t < s.nextThread ∧ t ∉ s.created) :
    Inv { s with
      runQueue := s.runQueue ++ queue
      suspendedRuns := s.suspendedRuns ++ suspended
      nextRun := n
      created := created } := by
  have hold : ∀ t ∈ s.created, ¬ HasRun (queue ++ suspended) t := fun t ht hr => (hnew t hr).2 ht
  have hcount : ∀ t, ThreadScheduler.runCount { s with
      runQueue := s.runQueue ++ queue
      suspendedRuns := s.suspendedRuns ++ suspended
      nextRun := n
      created := created } t =
        s.runCount t + (queue ++ suspended).countP fun r => r.thread = some t := by
    intro t
    rw [runCount_eq, runCount_eq]
    simp only [List.countP_append]
    omega
  have hzero : ∀ {runs : List ThreadRun} {t : Nat}, ¬ HasRun runs t →
      (runs.countP fun r => r.thread = some t) = 0 := by
    intro runs t hr
    rw [hasRun_iff_countP] at hr
    omega
  refine ⟨?_, ?_, ?_, h.current_lt, ?_, ?_, ?_, h.nonneg⟩
  · intro t ht
    rw [hcount]
    rcases hcreated t ht with ht | ⟨-, hnone, hone, -⟩
    · rw [h.once t ht, hzero (hold t ht)]
    · rw [runCount, hzero hnone, hone]
  · intro t ht
    simp only [allRuns, hasRun_append] at ht hnew
    rcases ht with ((ht | ht) | (ht | ht)) | ht
    · exact h.run_lt t (by simp only [allRuns, hasRun_append]; exact Or.inl (Or.inl ht))
    · exact (hnew t (Or.inl ht)).1
    · exact h.run_lt t (by simp only [allRuns, hasRun_append]; exact Or.inl (Or.inr ht))
    · exact (hnew t (Or.inr ht)).1
    · exact h.run_lt t (by simp only [allRuns, hasRun_append]; exact Or.inr ht)
  · intro t ht
    rcases hcreated t ht with ht | ⟨hlt, -⟩
    · exact h.created_lt t ht
    · exact hlt
  · intro t ht hr
    rcases hasRun_append.mp hr with hr | hr
    · rcases hcreated t ht with ht | ⟨-, hnone, -⟩
      · exact h.suspended t ht hr
      · exact absurd (hasRun_append.mpr (Or.inl (hasRun_append.mpr (Or.inr hr)))) hnone
    · rcases hcreated t ht with ht | ⟨-, -, -, hs, -⟩
      · exact absurd (hasRun_append.mpr (Or.inr hr)) (hold t ht)
      · exact hs hr
  · intro t ht hr
    rcases hasRun_append.mp hr with hr | hr
    · rcases hcreated t ht with ht | ⟨-, hnone, -⟩
      · exact h.queued t ht hr
      · exact absurd (hasRun_append.mpr (Or.inl (hasRun_append.mpr (Or.inl hr)))) hnone
    · rcases hcreated t ht with ht | ⟨-, -, -, -, hq, -⟩
      · exact absurd (hasRun_append.mpr (Or.inl hr)) (hold t ht)
      · exact hq hr
  · intro t ht hcurrent
    rcases hcreated t ht with ht | ⟨-, -, -, -, -, hne⟩
    · exact h.current t ht hcurrent
    · exact absurd hcurrent hne

theorem Inv.fresh (h : Inv s) : s.nextThread ∉ s.created ∧ ¬ HasRun s.allRuns s.nextThread ∧
    s.currentThread ≠ some s.nextThread :=
  ⟨fun hmem => Nat.lt_irrefl _ (h.created_lt _ hmem), fun hr => Nat.lt_irrefl _ (h.run_lt _ hr),
    fun hc => Nat.lt_irrefl _ (h.current_lt _ hc)⟩

/-- A new thread object has no run, and a count of 0. -/
theorem newThread_fresh (h : Inv s) (process : Option Nat) :
    s.nextThread < (s.newThread process).1.nextThread ∧
      ¬ HasRun (s.newThread process).1.allRuns s.nextThread ∧
      (s.newThread process).1.suspendCount s.nextThread = 0 ∧
      (s.newThread process).1.currentThread ≠ some s.nextThread :=
  ⟨Nat.lt_succ_self _, h.fresh.2.1, Function.update_self .., h.fresh.2.2⟩

theorem Inv.createThread (h : Inv s) (process : Option Nat) (isSuspended : Bool) :
    Inv (s.createThread process isSuspended).1 := by
  unfold ThreadScheduler.createThread
  split
  · exact h
  · have hnew := h.newThread process
    obtain ⟨hlt, hnone, hzero, hcurrent⟩ := newThread_fresh h process
    have hcreated := h.fresh.1
    have hrun : ∀ t, HasRun [(⟨s.nextRun, some s.nextThread, process⟩ : ThreadRun)] t →
        t = s.nextThread := by
      intro t ht
      exact (Option.some.inj (hasRun_singleton.mp ht)).symm
    have hempty : ∀ t, ¬ HasRun [] t := by simp [HasRun]
    cases isSuspended with
    | true =>
      have hset : Inv ((s.newThread process).1.setSuspendCount s.nextThread 1) := by
        apply hnew.setSuspendCount (by decide)
        · intro _ _
          decide
        · intro ht
          exact absurd ht hcreated
      have hadd : Inv _ := hset.addRuns [] [⟨s.nextRun, some s.nextThread, process⟩] (s.nextRun + 1)
        (s.nextThread :: s.created) ?_ ?_
      · simp only [List.append_nil] at hadd
        exact hadd
      · intro t ht
        rcases List.mem_cons.mp ht with rfl | ht
        · refine Or.inr ⟨hlt, hnone, by simp, fun _ => ?_, fun hr => absurd hr (hempty _), hcurrent⟩
          show (0 : Int) < Function.update (s.newThread process).1.suspendCount s.nextThread 1 s.nextThread
          rw [Function.update_self]
          decide
        · exact Or.inl ht
      · intro t ht
        rw [hrun t ht]
        exact ⟨hlt, hcreated⟩
    | false =>
      have hadd : Inv _ := hnew.addRuns [⟨s.nextRun, some s.nextThread, process⟩] [] (s.nextRun + 1)
        (s.nextThread :: s.created) ?_ ?_
      · simp only [List.append_nil] at hadd
        exact hadd
      · intro t ht
        rcases List.mem_cons.mp ht with rfl | ht
        · exact Or.inr ⟨hlt, hnone, by simp, fun hr => absurd hr (hempty _), fun _ => hzero, hcurrent⟩
        · exact Or.inl ht
      · intro t ht
        rw [List.append_nil] at ht
        rw [hrun t ht]
        exact ⟨hlt, hcreated⟩

theorem Inv.addRun (h : Inv s) (main : Bool) (process : Option Nat) : Inv (s.addRun main process) := by
  cases main with
  | true =>
    have hadd : Inv _ := (h.newThread process).addRuns [⟨s.nextRun, some s.nextThread, process⟩] []
      (s.nextRun + 1) s.created (fun t ht => Or.inl ht) ?_
    · simp only [List.append_nil] at hadd
      exact hadd
    · intro t ht
      have ht : t = s.nextThread := (Option.some.inj (hasRun_singleton.mp ht)).symm
      rw [ht]
      exact ⟨Nat.lt_succ_self _, h.fresh.1⟩
  | false =>
    have hadd : Inv _ := h.addRuns [⟨s.nextRun, none, process⟩] [] (s.nextRun + 1) s.created
      (fun t ht => Or.inl ht) ?_
    · simp only [List.append_nil] at hadd
      exact hadd
    · intro t ht
      cases hasRun_singleton.mp ht

theorem Inv.createProcess (h : Inv s) (p : Nat) (isSuspended : Bool) :
    Inv (s.createProcess p isSuspended) := by
  have hnew := h.newThread (some p)
  have hcreated := h.fresh.1
  have hset : Inv ((s.newThread (some p)).1.setSuspendCount s.nextThread 1) := by
    apply hnew.setSuspendCount (by decide)
    · intro ht
      exact absurd ht hcreated
    · intro ht
      exact absurd ht hcreated
  cases isSuspended with
  | true => exact ⟨hset.1, hset.2, hset.3, hset.4, hset.5, hset.6, hset.7, hset.8⟩
  | false => exact ⟨hnew.1, hnew.2, hnew.3, hnew.4, hnew.5, hnew.6, hnew.7, hnew.8⟩

/-- The count of one thread is changed, and the other threads keep their runs. -/
theorem update_nonneg {count : Nat → Int} (h : ∀ t, 0 ≤ count t) {t : Nat} {n : Int} (hn : 0 ≤ n)
    (t' : Nat) : 0 ≤ Function.update count t n t' := by
  by_cases heq : t' = t
  · rw [heq, Function.update_self]
    exact hn
  · rw [Function.update_of_ne heq]
    exact h t'

theorem Inv.suspendThread (h : Inv s) (obj : Option Nat) : Inv (s.suspendThread obj).1 := by
  cases obj with
  | none => exact h
  | some t =>
    have hnonneg := h.nonneg t
    unfold ThreadScheduler.suspendThread
    simp only
    split
    next hzero =>
      split
      next r hfind =>
        obtain ⟨hr, hthread⟩ := find?_thread hfind
        have hr : r ∈ s.runQueue := hr
        apply h.move (Function.update s.suspendCount t (s.suspendCount t + 1))
        · show (s.runQueue.erase r ++ (s.suspendedRuns ++ [r])).Perm (s.runQueue ++ s.suspendedRuns)
          have herase := ((List.perm_cons_erase hr).append_right s.suspendedRuns).symm
          rw [← List.append_assoc]
          exact (List.perm_append_singleton r _).trans herase
        · intro t' ht hrun
          by_cases heq : t' = t
          · rw [heq, Function.update_self]
            omega
          · rw [Function.update_of_ne heq]
            rcases hasRun_append.mp hrun with hrun | hrun
            · exact h.suspended t' ht hrun
            · have hsame := hasRun_singleton.mp hrun
              rw [hthread] at hsame
              exact absurd (Option.some.inj hsame).symm heq
        · intro t' ht hrun
          by_cases heq : t' = t
          · subst heq
            exact absurd hrun (not_hasRun_erase hr hthread (h.queue_le_one ht).1)
          · rw [Function.update_of_ne heq]
            exact h.queued t' ht hrun.of_erase
        · exact update_nonneg h.nonneg (by omega)
      next hfind =>
        apply h.setSuspendCount (by omega)
        · intro _ _
          omega
        · intro _ hrun
          exact absurd hrun (find?_thread_none hfind)
    next hcount =>
      apply h.setSuspendCount (by omega)
      · intro _ _
        omega
      · intro ht hrun
        have hzero := h.queued t ht hrun
        have hcurrent : s.currentThread = some t := by
          by_contra hne
          exact hcount ⟨hzero, hne⟩
        exact absurd hrun (h.not_queued_of_started ht (h.current t ht hcurrent))

theorem Inv.resumeChild (h : Inv s) (t : Nat) : Inv (s.resumeChild t) := by
  unfold ThreadScheduler.resumeChild
  split
  · exact h
  next p _ =>
    split
    · have hcreate := h.createThread (some p) false
      exact ⟨hcreate.1, hcreate.2, hcreate.3, hcreate.4, hcreate.5, hcreate.6, hcreate.7, hcreate.8⟩
    · exact h

/-- The count goes down. When it reaches 0, the run goes back to the queue. -/
theorem Inv.resumeThread (h : Inv s) (obj : Option Nat) : Inv (s.resumeThread obj).1 := by
  cases obj with
  | none => exact h
  | some t =>
    have hnonneg := h.nonneg t
    unfold ThreadScheduler.resumeThread
    by_cases hone : s.suspendCount t = 1
    · simp only [hone, ne_eq, not_true_eq_false, if_false, Int.sub_self]
      unfold ThreadScheduler.resumeRun
      have hnotQueued : t ∈ s.created → ¬ HasRun s.runQueue t := by
        intro ht hrun
        have := h.queued t ht hrun
        omega
      split
      next r hfind =>
        obtain ⟨hr, hthread⟩ := find?_thread hfind
        have hr : r ∈ s.suspendedRuns := hr
        apply h.move (Function.update s.suspendCount t 0)
        · show (s.runQueue ++ [r] ++ s.suspendedRuns.erase r).Perm (s.runQueue ++ s.suspendedRuns)
          rw [List.append_assoc]
          exact (List.perm_cons_erase hr).symm.append_left s.runQueue
        · intro t' ht hrun
          by_cases heq : t' = t
          · subst heq
            exact absurd hrun (not_hasRun_erase hr hthread (h.queue_le_one ht).2)
          · rw [Function.update_of_ne heq]
            exact h.suspended t' ht hrun.of_erase
        · intro t' ht hrun
          by_cases heq : t' = t
          · rw [heq, Function.update_self]
          · rw [Function.update_of_ne heq]
            rcases hasRun_append.mp hrun with hrun | hrun
            · exact h.queued t' ht hrun
            · have hsame := hasRun_singleton.mp hrun
              rw [hthread] at hsame
              exact absurd (Option.some.inj hsame).symm heq
        · exact update_nonneg h.nonneg (Int.le_refl 0)
      next hfind =>
        apply Inv.resumeChild
        apply h.setSuspendCount (Int.le_refl 0)
        · intro _ hrun
          exact absurd hrun (find?_thread_none hfind)
        · intro _ _
          rfl
    · simp only [ne_eq, hone, not_false_eq_true, if_true]
      split
      next hpos =>
        apply h.setSuspendCount (by omega)
        · intro _ _
          omega
        · intro ht hrun
          have := h.queued t ht hrun
          omega
      next => exact h

/-- The first run of the queue is started. -/
theorem Inv.start (h : Inv s) {r : ThreadRun} (r' : ThreadRun) {queue : List ThreadRun}
    (current : Option Nat)
    (hqueue : s.runQueue = r :: queue) (hthread : ∀ t, r.thread = some t → r'.thread = some t)
    (hlt : ∀ t, r'.thread = some t → t < s.nextThread)
    (hcreated : ∀ t ∈ s.created, r'.thread = some t → r.thread = some t)
    (hcurrent : ∀ t, current = some t → s.currentThread = some t ∨ r'.thread = some t) :
    Inv { s with runQueue := queue, runs := s.runs ++ [r'], currentThread := current } := by
  have hmem : ∀ t, HasRun queue t → HasRun s.runQueue t := by
    rintro t ⟨x, hx, ht⟩
    exact ⟨x, hqueue ▸ List.mem_cons_of_mem _ hx, ht⟩
  refine ⟨?_, ?_, h.created_lt, ?_, h.suspended, ?_, ?_, h.nonneg⟩
  · intro t ht
    have hone := h.once t ht
    rw [runCount_eq, hqueue, List.countP_cons] at hone
    rw [runCount_eq]
    simp only [List.countP_append, List.countP_singleton]
    have hiff : r'.thread = some t ↔ r.thread = some t := ⟨hcreated t ht, hthread t⟩
    simp only [hiff]
    omega
  · intro t ht
    simp only [allRuns, hasRun_append] at ht
    rcases ht with (ht | ht) | (ht | ht)
    · exact h.run_lt t (by simp only [allRuns, hasRun_append]; exact Or.inl (Or.inl (hmem t ht)))
    · exact h.run_lt t (by simp only [allRuns, hasRun_append]; exact Or.inl (Or.inr ht))
    · exact h.run_lt t (by simp only [allRuns, hasRun_append]; exact Or.inr ht)
    · exact hlt t (hasRun_singleton.mp ht)
  · intro t ht
    rcases hcurrent t ht with ht | ht
    · exact h.current_lt t ht
    · exact hlt t ht
  · intro t ht hrun
    exact h.queued t ht (hmem t hrun)
  · intro t ht hc
    rcases hcurrent t hc with hc | hc
    · exact hasRun_append.mpr (Or.inl (h.current t ht hc))
    · exact hasRun_append.mpr (Or.inr (hasRun_singleton.mpr hc))

theorem Inv.startRun (h : Inv s) : Inv s.startRun := by
  unfold ThreadScheduler.startRun
  split
  next => exact h
  next r queue hqueue =>
    have hhead : ∀ t, r.thread = some t → t < s.nextThread := by
      intro t ht
      apply h.run_lt
      simp only [allRuns, hasRun_append]
      exact Or.inl (Or.inl ⟨r, hqueue ▸ List.mem_cons_self, ht⟩)
    cases hthread : r.thread with
    | some t =>
      exact h.start r (some t) hqueue (fun _ ht => ht) hhead (fun _ _ ht => ht)
        (fun _ ht => Or.inr (hthread.trans ht))
    | none =>
      by_cases hkernel : s.isKernelMode = true
      · show Inv (if s.isKernelMode = true then _ else _)
        rw [if_pos hkernel]
        exact h.start r s.currentThread hqueue (fun _ ht => ht) hhead (fun _ _ ht => ht)
          (fun _ ht => Or.inl ht)
      · show Inv (if s.isKernelMode = true then _ else _)
        rw [if_neg hkernel]
        have hnew := h.newThread r.process
        have hstart : Inv _ := hnew.start { r with thread := some s.nextThread } (some s.nextThread)
          hqueue ?_ ?_ ?_ (fun t ht => Or.inr ht)
        · exact hstart
        · intro t ht
          rw [hthread] at ht
          cases ht
        · intro t ht
          cases ht
          exact Nat.lt_succ_self _
        · intro t ht hsome
          cases hsome
          exact absurd ht h.fresh.1

theorem Inv.step (h : Inv s) (op : SchedulerOp) : Inv (s.step op) := by
  cases op with
  | createThread process isSuspended => exact h.createThread process isSuspended
  | suspend obj => exact h.suspendThread obj
  | resume obj => exact h.resumeThread obj
  | start => exact h.startRun
  | addRun main process => exact h.addRun main process
  | createProcess p isSuspended => exact h.createProcess p isSuspended
  | modify p => exact ⟨h.1, h.2, h.3, h.4, h.5, h.6, h.7, h.8⟩

theorem reaches_inv {s₀ : ThreadScheduler} {made : List Nat} (h₀ : Inv s₀) (run : Reaches s₀ s made) : Inv s := by
  induction run with
  | start => exact h₀
  | next op _ ih => exact ih.step op

theorem Inv.hasRun (h : Inv s) {t : Nat} (ht : t ∈ s.created) : HasRun s.allRuns t := by
  rw [hasRun_iff_countP]
  have hone : (s.allRuns.countP fun r => r.thread = some t) = 1 := h.once t ht
  omega

theorem Inv.suspended_iff (h : Inv s) {t : Nat} (ht : t ∈ s.created) (hstarted : ¬ s.Started t) :
    s.Suspended t ↔ 0 < s.suspendCount t := by
  constructor
  · exact h.suspended t ht
  · intro hpos
    have hrun := h.hasRun ht
    simp only [allRuns, hasRun_append] at hrun
    rcases hrun with (hrun | hrun) | hrun
    · have := h.queued t ht hrun
      omega
    · exact hrun
    · exact absurd hrun hstarted

theorem suspendThread_count (s : ThreadScheduler) (t : Nat) :
    (s.suspendThread (some t)).2 = s.suspendCount t ∧
      (s.suspendThread (some t)).1.suspendCount t = s.suspendCount t + 1 := by
  have hset : (s.setSuspendCount t (s.suspendCount t + 1)).suspendCount t = s.suspendCount t + 1 :=
    Function.update_self ..
  unfold ThreadScheduler.suspendThread
  simp only
  split
  · split
    · exact ⟨rfl, hset⟩
    · exact ⟨rfl, hset⟩
  · exact ⟨rfl, hset⟩

theorem resumeChild_count {t : Nat} (ht : t < s.nextThread) (t' : Nat) :
    (s.resumeChild t').suspendCount t = s.suspendCount t := by
  unfold ThreadScheduler.resumeChild
  split
  · rfl
  · split
    · show (s.createThread _ false).1.suspendCount t = _
      unfold ThreadScheduler.createThread
      split
      · rfl
      · exact Function.update_of_ne (Nat.ne_of_lt ht) ..
    · rfl

theorem Inv.resumeThread_count (h : Inv s) {t : Nat} (ht : t ∈ s.created) :
    (s.resumeThread (some t)).2 = s.suspendCount t ∧
      (s.resumeThread (some t)).1.suspendCount t = max (s.suspendCount t - 1) 0 := by
  have hnonneg := h.nonneg t
  unfold ThreadScheduler.resumeThread
  by_cases hone : s.suspendCount t = 1
  · simp only [hone, ne_eq, not_true_eq_false, if_false, Int.sub_self]
    unfold ThreadScheduler.resumeRun
    have hset : (s.setSuspendCount t 0).suspendCount t = max 0 0 := Function.update_self ..
    split
    · exact ⟨rfl, hset⟩
    · have hlt : t < (s.setSuspendCount t 0).nextThread := h.created_lt t ht
      have hchild := resumeChild_count hlt t
      exact ⟨rfl, hchild.trans hset⟩
  · simp only [ne_eq, hone, not_false_eq_true, if_true]
    refine ⟨trivial, ?_⟩
    split
    next hpos =>
      show Function.update s.suspendCount t (s.suspendCount t - 1) t = _
      rw [Function.update_self]
      omega
    next hpos => omega

theorem createThread_none (process : Option Nat) (isSuspended : Bool) :
    (s.createThread process isSuspended).2 = none ↔ s.maxRuns ≤ s.runQueue.length := by
  unfold ThreadScheduler.createThread
  split
  next hfull => exact iff_of_true rfl hfull
  next hroom =>
    cases isSuspended with
    | true => exact iff_of_false nofun hroom
    | false => exact iff_of_false nofun hroom

theorem createThread_failed {process : Option Nat} {isSuspended : Bool}
    (h : (s.createThread process isSuspended).2 = none) : (s.createThread process isSuspended).1 = s := by
  have hfull := (createThread_none process isSuspended).mp h
  unfold ThreadScheduler.createThread
  rw [if_pos hfull]

/-- A thread that is returned is the new one, and it is recorded. -/
theorem createThread_some {process : Option Nat} {isSuspended : Bool} {t : Nat}
    (h : (s.createThread process isSuspended).2 = some t) :
    t = s.nextThread ∧ (s.createThread process isSuspended).1.created = t :: s.created := by
  have hroom : ¬ s.maxRuns ≤ s.runQueue.length := by
    intro hfull
    rw [(createThread_none process isSuspended).mpr hfull] at h
    cases h
  unfold ThreadScheduler.createThread at h ⊢
  rw [if_neg hroom] at h ⊢
  cases isSuspended with
  | true =>
    cases h
    exact ⟨rfl, rfl⟩
  | false =>
    cases h
    exact ⟨rfl, rfl⟩

theorem createThread_created (process : Option Nat) (isSuspended : Bool) :
    s.created ⊆ (s.createThread process isSuspended).1.created := by
  cases h : (s.createThread process isSuspended).2 with
  | none =>
    rw [createThread_failed h]
    exact List.Subset.refl _
  | some t =>
    rw [(createThread_some h).2]
    exact List.subset_cons_self ..

theorem resumeChild_created (t : Nat) : s.created ⊆ (s.resumeChild t).created := by
  unfold ThreadScheduler.resumeChild
  split
  · exact List.Subset.refl _
  next p _ =>
    split
    · exact s.createThread_created (some p) false
    · exact List.Subset.refl _

theorem resumeRun_created (t : Nat) : (s.resumeRun t).1.created = s.created := by
  unfold ThreadScheduler.resumeRun
  split
  · rfl
  · rfl

theorem resumeThread_created (obj : Option Nat) : s.created ⊆ (s.resumeThread obj).1.created := by
  cases obj with
  | none => exact List.Subset.refl _
  | some t =>
    have hset : s.created =
        (if 0 < s.suspendCount t then s.setSuspendCount t (s.suspendCount t - 1) else s).created := by
      split
      · rfl
      · rfl
    unfold ThreadScheduler.resumeThread
    dsimp only
    generalize (if 0 < s.suspendCount t then s.setSuspendCount t (s.suspendCount t - 1) else s) = counted at hset ⊢
    rw [hset]
    split
    · exact List.Subset.refl _
    · have hrun := counted.resumeRun_created t
      split
      · exact hrun.symm ▸ List.Subset.refl _
      · rw [← hrun]
        exact resumeChild_created t

theorem suspendThread_created (obj : Option Nat) : (s.suspendThread obj).1.created = s.created := by
  cases obj with
  | none => rfl
  | some t =>
    unfold ThreadScheduler.suspendThread
    dsimp only
    split
    · split
      · rfl
      · rfl
    · rfl

theorem startRun_created (s : ThreadScheduler) : s.startRun.created = s.created := by
  unfold ThreadScheduler.startRun
  split
  · rfl
  · dsimp only
    split
    · rfl
    · split
      · rfl
      · rfl

theorem step_created (op : SchedulerOp) : s.created ⊆ (s.step op).created := by
  cases op with
  | createThread process isSuspended => exact s.createThread_created process isSuspended
  | suspend obj => exact (s.suspendThread_created obj).symm ▸ List.Subset.refl _
  | resume obj => exact resumeThread_created obj
  | start => exact s.startRun_created.symm ▸ List.Subset.refl _
  | addRun main process =>
    cases main with
    | true => exact List.Subset.refl _
    | false => exact List.Subset.refl _
  | createProcess p isSuspended =>
    cases isSuspended with
    | true => exact List.Subset.refl _
    | false => exact List.Subset.refl _
  | modify p => exact List.Subset.refl _

/-- What an operation returns is recorded, and no earlier operation returned it. -/
theorem Inv.returned (h : Inv s) (op : SchedulerOp) : (s.returned op).Nodup ∧
    ∀ t ∈ s.returned op, t ∈ (s.step op).created ∧ t ∉ s.created := by
  cases op with
  | createThread process isSuspended =>
    refine ⟨?_, fun t ht => ?_⟩
    · show (s.createThread process isSuspended).2.toList.Nodup
      cases (s.createThread process isSuspended).2 with
      | none => exact List.nodup_nil
      | some t => exact List.pairwise_singleton ..
    obtain ⟨hnew, hcreated⟩ := createThread_some (Option.mem_toList.mp ht)
    refine ⟨?_, hnew ▸ h.fresh.1⟩
    show t ∈ (s.createThread process isSuspended).1.created
    rw [hcreated]
    exact List.mem_cons_self
  | suspend _ => exact ⟨List.nodup_nil, nofun⟩
  | resume _ => exact ⟨List.nodup_nil, nofun⟩
  | start => exact ⟨List.nodup_nil, nofun⟩
  | addRun _ _ => exact ⟨List.nodup_nil, nofun⟩
  | createProcess _ _ => exact ⟨List.nodup_nil, nofun⟩
  | modify _ => exact ⟨List.nodup_nil, nofun⟩

theorem reaches_made {s₀ : ThreadScheduler} {made : List Nat} (h₀ : Inv s₀) (run : Reaches s₀ s made) :
    (∀ t ∈ made, t ∈ s.created) ∧ made.Nodup := by
  induction run with
  | start => exact ⟨nofun, List.nodup_nil⟩
  | next op run ih =>
    obtain ⟨hnodup, hnew⟩ := (reaches_inv h₀ run).returned op
    refine ⟨fun t ht => ?_, List.nodup_append.mpr ⟨hnodup, ih.2, ?_⟩⟩
    · rcases List.mem_append.mp ht with ht | ht
      · exact (hnew t ht).1
      · exact step_created op (ih.1 t ht)
    · rintro t ht t' ht' rfl
      exact (hnew t ht).2 (ih.1 t ht')

/-- No run of a created thread is lost or doubled, over all calls and all starts of runs. -/
theorem reaches_runsKept {maxRuns : Nat} {isKernelMode : Bool} {s : ThreadScheduler} {made : List Nat}
    (run : Reaches (initial maxRuns isKernelMode) s made) : RunsKept s made := by
  have h := reaches_inv (inv_initial maxRuns isKernelMode) run
  obtain ⟨hmade, hnodup⟩ := reaches_made (inv_initial maxRuns isKernelMode) run
  refine ⟨hmade, hnodup, createThread_none, fun _ _ => createThread_failed, h.once, fun t ht => h.suspended_iff ht, ?_,
    h.nonneg, s.suspendThread_count, fun t ht => h.resumeThread_count ht⟩
  intro r queue t hqueue hthread ht
  have hrun : HasRun s.runQueue t := ⟨r, hqueue ▸ List.mem_cons_self, hthread⟩
  have hzero := h.queued t ht hrun
  refine ⟨hzero, fun hsuspended => ?_⟩
  have := h.suspended t ht hsuspended
  omega

theorem reaches_runsKept_suspended : RunsKept
    (((((initial 100 false).step (.createThread (some 7) true)).step (.resume (some 0))).step
      .start).step (.suspend (some 0))) [0] :=
  reaches_runsKept ((((Reaches.start.next _).next _).next _).next _)

end ThreadScheduler

end

end Speakeasy
