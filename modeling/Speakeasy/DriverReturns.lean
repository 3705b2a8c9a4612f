import Speakeasy.DriverCoverage

namespace Speakeasy

section

namespace KernelEmu

variable {env : KernelEnv} {others : List DriverObject} {drv : DriverObject} {entryPoint : Option Nat}
  {k : Nat} {s : KernelEmu}

theorem nextDriverFunc_queued {d : DriverObject} (hqueue : s.runQueue ≠ []) :
    s.nextDriverFunc env d = (s, d) := if_pos hqueue

theorem visitDrivers_queued (hqueue : s.runQueue ≠ []) (ds : List DriverObject) :
    s.visitDrivers env ds = (s, ds) := by
  induction ds with
  | nil => rfl
  | cons d ds ih =>
    unfold visitDrivers
    simp only [nextDriverFunc_queued hqueue, ite_self, ih]

theorem visitDrivers_cons (s : KernelEmu) (d : DriverObject) (ds : List DriverObject) :
    s.visitDrivers env (d :: ds) =
      let visited := if some d.pe = s.currMod then s.nextDriverFunc env d else (s, d)
      ((visited.1.visitDrivers env ds).1, visited.2 :: (visited.1.visitDrivers env ds).2) := rfl

theorem visitDrivers_append (s : KernelEmu) (ds es : List DriverObject) :
    s.visitDrivers env (ds ++ es) =
      (((s.visitDrivers env ds).1.visitDrivers env es).1,
        (s.visitDrivers env ds).2 ++ ((s.visitDrivers env ds).1.visitDrivers env es).2) := by
  induction ds generalizing s with
  | nil => rfl
  | cons d ds ih =>
    rw [List.cons_append, visitDrivers_cons, visitDrivers_cons]
    simp only [ih, List.cons_append]

theorem visitDrivers_apart {ds : List DriverObject} (h : ∀ d ∈ ds, some d.pe ≠ s.currMod) :
    s.visitDrivers env ds = (s, ds) := by
  induction ds with
  | nil => rfl
  | cons d ds ih =>
    have hd := h d List.mem_cons_self
    have hrest := ih fun e he => h e (List.mem_cons_of_mem _ he)
    unfold visitDrivers
    simp only [if_neg hd, hrest]

/-- The state that a driver without handlers and unload routine leaves. -/
def ended (s : KernelEmu) : KernelEmu := s.takeDelayed.onEmuComplete

theorem ended_ended (s : KernelEmu) : s.ended.ended = s.ended := by
  simp [ended, takeDelayed, onEmuComplete, addRuns]

theorem visitDrivers_blank (hall : s.allEntrypoints = true) {ds : List DriverObject}
    (hblank : ∀ d ∈ ds, (∀ major, d.mjFuncs major = 0) ∧ d.onUnload = 0) :
    s.visitDrivers env ds = (s, ds) ∨ s.visitDrivers env ds = (s.ended, ds) := by
  induction ds generalizing s with
  | nil => exact Or.inl rfl
  | cons d ds ih =>
    have hrest : ∀ e ∈ ds, (∀ major, e.mjFuncs major = 0) ∧ e.onUnload = 0 :=
      fun e he => hblank e (List.mem_cons_of_mem _ he)
    have hnext : s.nextDriverFunc env d = (s, d) ∨ s.nextDriverFunc env d = (s.ended, d) := by
      by_cases hqueue : s.runQueue = []
      · right
        obtain ⟨hzero, hunload⟩ := hblank d List.mem_cons_self
        have hnone : s.nextIrp d = none := by
          apply List.find?_eq_none.mpr
          intro irp _
          simp [hzero]
        unfold KernelEmu.nextDriverFunc
        rw [if_neg (not_not.mpr hqueue), if_neg (by simp [hall]), hnone]
        exact if_pos (Or.inl hunload)
      · exact Or.inl (nextDriverFunc_queued hqueue)
    have hvisited : (if some d.pe = s.currMod then s.nextDriverFunc env d else (s, d)) = (s, d) ∨
        (if some d.pe = s.currMod then s.nextDriverFunc env d else (s, d)) = (s.ended, d) := by
      split
      next => exact hnext
      next => exact Or.inl rfl
    unfold visitDrivers
    rcases hvisited with hsame | hended
    · simp only [hsame]
      rcases ih hall hrest with h | h
      · left
        rw [h]
      · right
        rw [h]
    · right
      simp only [hended]
      rcases ih (s := s.ended) hall hrest with h | h
      · rw [h]
      · rw [h, ended_ended]

end KernelEmu

end

section

namespace KernelEmu

variable {env : KernelEnv} {others : List DriverObject} {drv : DriverObject} {entryPoint : Option Nat}
  {k : Nat} {s : KernelEmu}

/-- A run executes, and all runs before it returned. -/
def Running (s : KernelEmu) : Prop := ∃ r, s.currRun = some r ∧ s.runs = s.returned ++ [r]

/-- The state in which the current run returned. -/
def afterRun (s : KernelEmu) : KernelEmu := { s with returned := s.returned ++ s.currRun.toList }

theorem Running.returned (h : Running s) : s.afterRun.returned = s.runs := by
  obtain ⟨r, hcurr, hruns⟩ := h
  show s.returned ++ s.currRun.toList = s.runs
  rw [hcurr, hruns]
  rfl

theorem Inv.afterRun (h : Inv env others drv entryPoint k s) :
    Inv env others drv entryPoint k s.afterRun :=
  ⟨h.entrypoints, h.live, h.once, h.bound, h.listed, h.waiting, h.drivers⟩

theorem Inv.runs_eq_added (h : Inv env others drv entryPoint k s) (hqueue : s.runQueue = []) :
    s.runs = s.added := by
  have := h.once
  rw [hqueue, List.append_nil] at this
  exact this

theorem Inv.inOrder (h : Inv env others drv entryPoint k s) :
    driverRuns s.runs <+: entryPoints env drv entryPoint := by
  have hadded : driverRuns s.runs <+: driverRuns s.added := by
    rw [← h.once, driverRuns_append]
    exact List.prefix_append _ _
  have hlisted : driverRuns s.added <+: driverRuns s.added ++ s.delayedRuns := List.prefix_append _ _
  rw [h.listed] at hlisted
  apply (hadded.trans hlisted).trans
  rw [entryPoints_eq]
  exact (List.prefix_append_right_inj _).mpr (List.take_prefix _ _)

theorem Inv.covered (h : Inv env others drv entryPoint k s) (hrun : Running s) :
    Covered env drv entryPoint s where
  inOrder := h.inOrder
  once := h.once
  running _ := hrun
  complete hdone := by
    rw [h.live] at hdone
    cases hdone

/-- An export that waits is not among the runs. -/
theorem Inv.delayed_eq_nil (h : Inv env others drv entryPoint k s) (hqueue : s.runQueue = [])
    (hall : driverRuns s.runs = entryPoints env drv entryPoint) : s.delayedRuns = [] := by
  have hlength := congrArg List.length h.listed
  rw [h.runs_eq_added hqueue] at hall
  rw [hall, entryPoints_eq] at hlength
  simp only [List.length_append, List.length_take] at hlength
  apply List.eq_nil_of_length_eq_zero
  omega

theorem prepareNextRun_cons {r : DriverRun} {queue : List DriverRun} (h : s.runQueue = r :: queue) :
    s.prepareNextRun env = prepareRunContext env { s with runQueue := queue } r := by
  unfold prepareNextRun
  rw [h]

theorem prepareNextRun_nil (h : s.runQueue = []) : s.prepareNextRun env = s.onEmuComplete := by
  unfold prepareNextRun
  rw [h]

theorem Inv.prepare (h : Inv env others drv entryPoint k s) {r : DriverRun} {queue : List DriverRun}
    (hqueue : s.runQueue = r :: queue) (hreturned : s.returned = s.runs) :
    Inv env others drv entryPoint k (s.prepareNextRun env) ∧ Running (s.prepareNextRun env) := by
  have hprepare : s.prepareNextRun env = prepareRunContext env { s with runQueue := queue } r :=
    prepareNextRun_cons hqueue
  rw [hprepare]
  refine ⟨⟨h.entrypoints, h.live, ?_, h.bound, h.listed, h.waiting, h.drivers⟩, r, rfl, ?_⟩
  · have := h.once
    rw [hqueue] at this
    show (s.runs ++ [r]) ++ queue = s.added
    rw [List.append_assoc]
    exact this
  · show s.runs ++ [r] = s.returned ++ [r]
    rw [hreturned]

theorem returnRun_eq {t : KernelEmu} {ds : List DriverObject}
    (h : s.afterRun.visitDrivers env s.drivers = (t, ds)) :
    s.returnRun env = prepareNextRun env { t with drivers := ds } := by
  have hreturn : s.returnRun env = prepareNextRun env
      { (s.afterRun.visitDrivers env s.drivers).1 with
        drivers := (s.afterRun.visitDrivers env s.drivers).2 } := rfl
  rw [hreturn, h]

/-- The return of a run while others wait in the queue. -/
theorem Inv.returnRun_queued (h : Inv env others drv entryPoint k s) (hrun : Running s)
    (hqueue : s.runQueue ≠ []) :
    Inv env others drv entryPoint k (s.returnRun env) ∧ Running (s.returnRun env) := by
  have hvisit : s.afterRun.visitDrivers env s.drivers = (s.afterRun, s.drivers) :=
    visitDrivers_queued (s := s.afterRun) hqueue s.drivers
  obtain ⟨r, queue, hcons⟩ := List.exists_cons_of_ne_nil hqueue
  rw [returnRun_eq hvisit]
  exact h.afterRun.prepare hcons hrun.returned

section

variable (hload : DriverLoaded env others drv entryPoint)
include hload

theorem Inv.visit_module (h : Inv env others drv entryPoint k s) (hmod : s.currMod = some drv.pe) :
    s.afterRun.visitDrivers env s.drivers =
      ((s.afterRun.nextDriverFunc env
          { drv with unloadCalled := decide ((irpRuns env drv).length < k) }).1,
        others ++ [(s.afterRun.nextDriverFunc env
          { drv with unloadCalled := decide ((irpRuns env drv).length < k) }).2]) := by
  have hothers : s.afterRun.visitDrivers env others = (s.afterRun, others) := by
    apply visitDrivers_apart
    intro d hd heq
    have heq : some d.pe = s.currMod := heq
    rw [hmod] at heq
    exact hload.apart d hd (Option.some.inj heq)
  have hpe : some drv.pe = s.afterRun.currMod := hmod.symm
  rw [h.drivers, visitDrivers_append, hothers, visitDrivers_cons]
  simp only [if_pos hpe]
  rfl

/-- With an empty queue, the next of the last runs is added after the waiting exports. -/
theorem Inv.returnRun_next (h : Inv env others drv entryPoint k s) (hrun : Running s)
    (hqueue : s.runQueue = []) (hmod : s.currMod = some drv.pe)
    (hk : k < (lastRuns env drv).length) :
    Inv env others drv entryPoint (k + 1) (s.returnRun env) ∧ Running (s.returnRun env) := by
  have hnext := h.afterRun.nextDriverFunc hqueue
  rw [List.getElem?_eq_getElem hk] at hnext
  have hvisit := h.visit_module hload hmod
  rw [hnext] at hvisit
  rw [returnRun_eq hvisit]
  have htake : (lastRuns env drv).take (k + 1) = (lastRuns env drv).take k ++ [(lastRuns env drv)[k]] :=
    List.take_succ_eq_append_getElem hk
  have hone : driverRuns [(lastRuns env drv)[k]] = [(lastRuns env drv)[k]] := by
    apply driverRuns_eq_self
    intro r hr
    rw [List.mem_singleton.mp hr]
    exact lastRuns_ofDriver (List.getElem_mem hk)
  have hdelayed : driverRuns s.delayedRuns = s.delayedRuns := by
    apply driverRuns_eq_self
    intro r hr
    rcases h.waiting with hnone | hzero
    · rw [hnone] at hr
      cases hr
    · have hlisted := h.listed
      rw [hzero, List.take_zero, List.append_nil] at hlisted
      have hmem : r ∈ entryRun env drv entryPoint ++ exportRuns env drv :=
        hlisted ▸ List.mem_append_right _ hr
      rcases List.mem_append.mp hmem with hentry | hexport
      · rw [entryRun_type hentry]
        rfl
      · exact exportRuns_ofDriver hexport
  have hinv : Inv env others drv entryPoint (k + 1)
      { s.afterRun.takeDelayed.addRun (lastRuns env drv)[k] with
        drivers := others ++ [{ drv with unloadCalled := decide ((irpRuns env drv).length < k + 1) }] } := by
    refine ⟨h.entrypoints, h.live, ?_, hk, ?_, Or.inl rfl, rfl⟩
    · show s.runs ++ (s.runQueue ++ s.delayedRuns ++ [(lastRuns env drv)[k]]) =
        s.added ++ s.delayedRuns ++ [(lastRuns env drv)[k]]
      rw [← h.once, hqueue]
      simp
    · show driverRuns (s.added ++ s.delayedRuns ++ [(lastRuns env drv)[k]]) ++ [] = _
      rw [List.append_nil, driverRuns_append, driverRuns_append, hone, hdelayed, h.listed, htake]
      simp only [List.append_assoc]
  have hcons : ∃ r queue, s.runQueue ++ s.delayedRuns ++ [(lastRuns env drv)[k]] = r :: queue :=
    List.exists_cons_of_ne_nil (by simp)
  obtain ⟨r, queue, hcons⟩ := hcons
  exact hinv.prepare hcons hrun.returned

/-- Where no more runs are added the emulation is complete. -/
theorem Inv.returnRun_ended (h : Inv env others drv entryPoint k s) (hrun : Running s)
    (hqueue : s.runQueue = []) (hend : s.currMod ≠ some drv.pe ∨ k = (lastRuns env drv).length) :
    (s.returnRun env).isEmuComplete = true ∧ (s.returnRun env).returned = s.runs ∧
      (s.delayedRuns = [] → (s.returnRun env).runs = s.runs ∧ (s.returnRun env).runQueue = [] ∧
        (s.returnRun env).added = s.added) := by
  have hvisit : ∃ t ds, s.afterRun.visitDrivers env s.drivers = (t, ds) ∧
      (t = s.afterRun ∨ t = s.afterRun.ended) := by
    by_cases hmod : s.currMod = some drv.pe
    · have hk := hend.resolve_left (not_not.mpr hmod)
      have hnext := h.afterRun.nextDriverFunc hqueue
      rw [List.getElem?_eq_none (Nat.le_of_eq hk.symm)] at hnext
      have hvisit := h.visit_module hload hmod
      rw [hnext] at hvisit
      exact ⟨_, _, hvisit, Or.inr rfl⟩
    · have hlast : ∀ t : KernelEmu, t.currMod = s.currMod →
          t.visitDrivers env [{ drv with unloadCalled := decide ((irpRuns env drv).length < k) }] =
            (t, [{ drv with unloadCalled := decide ((irpRuns env drv).length < k) }]) := by
        intro t ht
        apply visitDrivers_apart
        intro d hd heq
        rw [List.mem_singleton.mp hd, ht] at heq
        exact hmod heq.symm
      rw [h.drivers, visitDrivers_append]
      have hblank : s.afterRun.visitDrivers env others = (s.afterRun, others) ∨
          s.afterRun.visitDrivers env others = (s.afterRun.ended, others) :=
        visitDrivers_blank (s := s.afterRun) h.entrypoints hload.blank
      rcases hblank with hs | hs
      · rw [hs, hlast s.afterRun rfl]
        exact ⟨_, _, rfl, Or.inl rfl⟩
      · rw [hs, hlast s.afterRun.ended rfl]
        exact ⟨_, _, rfl, Or.inr rfl⟩
  obtain ⟨t, ds, hvisit, ht⟩ := hvisit
  rw [returnRun_eq hvisit]
  rcases ht with ht | ht
  · have hnil : ({ t with drivers := ds } : KernelEmu).runQueue = [] := by
      rw [ht]
      exact hqueue
    rw [prepareNextRun_nil hnil, ht]
    exact ⟨rfl, hrun.returned, fun _ => ⟨rfl, hqueue, rfl⟩⟩
  · have htqueue : ({ t with drivers := ds } : KernelEmu).runQueue = s.delayedRuns := by
      rw [ht]
      show s.runQueue ++ s.delayedRuns = s.delayedRuns
      rw [hqueue, List.nil_append]
    cases hdelayed : s.delayedRuns with
    | nil =>
      rw [hdelayed] at htqueue
      rw [prepareNextRun_nil htqueue]
      refine ⟨rfl, ?_, fun _ => ⟨?_, htqueue, ?_⟩⟩
      · rw [ht]
        exact hrun.returned
      · rw [ht]
        rfl
      · rw [ht]
        show s.added ++ s.delayedRuns = s.added
        rw [hdelayed, List.append_nil]
    | cons r queue =>
      rw [hdelayed] at htqueue
      rw [prepareNextRun_cons htqueue, ht]
      exact ⟨rfl, hrun.returned, fun hnil => by cases hnil⟩

end

end KernelEmu

end

end Speakeasy
