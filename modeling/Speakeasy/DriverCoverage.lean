import Speakeasy.DriverRuns
import Speakeasy.ListSearch

namespace Speakeasy

namespace KernelEmu

/-- DriverEntry exists, and each other driver object is as the configuration creates it, for a module of
its own. -/
structure DriverLoaded (env : KernelEnv) (others : List DriverObject) (drv : DriverObject)
    (entryPoint : Option Nat) : Prop where
  entry : entryRun env drv entryPoint ≠ []
  notUnloaded : drv.unloadCalled = false
  apart : ∀ d ∈ others, d.pe ≠ drv.pe
  blank : ∀ d ∈ others, (∀ major, d.mjFuncs major = 0) ∧ d.onUnload = 0

/-- The return of a run when the queue is empty: if an entry point is left, the run is one of the module
of the driver, and waiting exports are followed by an IRP handler or the unload routine. -/
structure ReturnCovers (env : KernelEnv) (drv : DriverObject) (entryPoint : Option Nat)
    (s : KernelEmu) : Prop where
  inModule : s.isEmuComplete = false → s.runQueue = [] →
    driverRuns s.runs ≠ entryPoints env drv entryPoint → s.currMod = some drv.pe
  followed : s.isEmuComplete = false → s.runQueue = [] → s.delayedRuns ≠ [] →
    irpRuns env drv ≠ [] ∨ drv.onUnload ≠ 0

/-- What follows the exports. -/
def lastRuns (env : KernelEnv) (drv : DriverObject) : List DriverRun := irpRuns env drv ++ unloadRuns drv

/-- The state after `k` of the runs that follow the exports were added. -/
structure Inv (env : KernelEnv) (others : List DriverObject) (drv : DriverObject)
    (entryPoint : Option Nat) (k : Nat) (s : KernelEmu) : Prop where
  entrypoints : s.allEntrypoints = true
  live : s.isEmuComplete = false
  once : s.runs ++ s.runQueue = s.added
  bound : k ≤ (lastRuns env drv).length
  listed : driverRuns s.added ++ s.delayedRuns =
    entryRun env drv entryPoint ++ exportRuns env drv ++ (lastRuns env drv).take k
  waiting : s.delayedRuns = [] ∨ k = 0
  drivers : s.drivers = others ++ [{ drv with unloadCalled := decide ((irpRuns env drv).length < k) }]

variable {env : KernelEnv} {others : List DriverObject} {drv : DriverObject} {entryPoint : Option Nat}
  {k : Nat} {s : KernelEmu}

theorem entryPoints_eq (env : KernelEnv) (drv : DriverObject) (entryPoint : Option Nat) :
    entryPoints env drv entryPoint =
      entryRun env drv entryPoint ++ exportRuns env drv ++ lastRuns env drv := by
  unfold entryPoints lastRuns
  rw [List.append_assoc (entryRun env drv entryPoint ++ exportRuns env drv)]

theorem driverRuns_append (xs ys : List DriverRun) :
    driverRuns (xs ++ ys) = driverRuns xs ++ driverRuns ys := List.filter_append _ _

theorem driverRuns_eq_self {xs : List DriverRun} (h : ∀ r ∈ xs, r.type.ofDriver = true) :
    driverRuns xs = xs := List.filter_eq_self.mpr h

theorem entryRun_type {r : DriverRun} (hr : r ∈ entryRun env drv entryPoint) :
    r.type = .driverEntry := by
  unfold entryRun at hr
  split at hr
  next => rw [List.mem_singleton.mp hr]
  next =>
    split at hr
    next => rw [List.mem_singleton.mp hr]
    next => cases hr
  next => cases hr

theorem exportRuns_type {r : DriverRun} (hr : r ∈ exportRuns env drv) : r.type = .export := by
  unfold exportRuns at hr
  split at hr
  next =>
    obtain ⟨exp, -, rfl⟩ := List.mem_map.mp hr
    rfl
  next => cases hr

theorem irpRuns_type {r : DriverRun} (hr : r ∈ irpRuns env drv) : r.type = .irp := by
  unfold irpRuns at hr
  split at hr
  next => cases hr
  next =>
    obtain ⟨irp, -, rfl⟩ := List.mem_map.mp hr
    rfl

theorem unloadRuns_type {r : DriverRun} (hr : r ∈ unloadRuns drv) : r.type = .driverUnload := by
  unfold unloadRuns at hr
  split at hr
  next => cases hr
  next => rw [List.mem_singleton.mp hr]; rfl

theorem lastRuns_ofDriver {r : DriverRun} (hr : r ∈ lastRuns env drv) : r.type.ofDriver = true := by
  rcases List.mem_append.mp hr with hr | hr
  · rw [irpRuns_type hr]
    rfl
  · rw [unloadRuns_type hr]
    rfl

theorem exportRuns_ofDriver {r : DriverRun} (hr : r ∈ exportRuns env drv) :
    r.type.ofDriver = true := by
  rw [exportRuns_type hr]
  rfl

/-- The major functions with a handler. -/
def handled (drv : DriverObject) : List (Nat × String) :=
  irpMajors.filter fun irp => drv.mjFuncs irp.1 ≠ 0

theorem irpMajors_names : (irpMajors.map Prod.snd).Nodup := by decide

theorem irpRuns_eq {dev : Nat} {rest : List Nat} (hdev : drv.devices = dev :: rest) :
    irpRuns env drv = (handled drv).map (irpRun env drv dev) := by
  unfold irpRuns
  rw [hdev]
  rfl

theorem irpMajors_ext {a b : Nat × String} (ha : a ∈ irpMajors) (hb : b ∈ irpMajors)
    (h : a.2 = b.2) : a = b :=
  List.inj_on_of_nodup_map irpMajors_names ha hb h

/-- If the IRPs that were sent are the first `k` of them, the next one is the one at index `k`. -/
theorem nextIrp_eq {dev : Nat} {rest : List Nat} (hdev : drv.devices = dev :: rest)
    (hstarted : s.runs.filter (fun r => decide (r.type = .irp)) = (irpRuns env drv).take k) :
    s.nextIrp drv = (handled drv)[k]? := by
  have hnodup : (handled drv).Nodup := List.Nodup.filter _ (List.Nodup.of_map _ irpMajors_names)
  have hirp : ∀ irp ∈ irpMajors, drv.mjFuncs irp.1 ≠ 0 →
      (s.irpStarted irp.2 = true ↔ irp ∈ (handled drv).take k) := by
    intro irp hmem hhandler
    have hany : s.irpStarted irp.2 = true ↔
        ∃ r ∈ s.runs.filter (fun r => decide (r.type = .irp)), r.name = some irp.2 := by
      simp [irpStarted, and_assoc]
    rw [hany, hstarted, irpRuns_eq hdev, ← List.map_take]
    constructor
    · rintro ⟨r, hr, hname⟩
      obtain ⟨other, hother, rfl⟩ := List.mem_map.mp hr
      have hin := (List.mem_filter.mp (List.mem_of_mem_take hother)).1
      rw [irpMajors_ext hmem hin (Option.some.inj hname).symm]
      exact hother
    · intro htaken
      exact ⟨_, List.mem_map_of_mem htaken, rfl⟩
  rw [← find?_not_taken hnodup k]
  unfold nextIrp
  conv => rhs; arg 2; unfold handled
  rw [List.find?_filter]
  apply find?_congr
  intro irp hmem
  by_cases hhandler : drv.mjFuncs irp.1 = 0
  · simp [hhandler]
  · have hiff := hirp irp hmem hhandler
    by_cases hsent : irp ∈ (handled drv).take k
    · simp [hiff.mpr hsent, hsent]
    · have hfalse : s.irpStarted irp.2 = false := by
        rw [Bool.eq_false_iff]
        exact fun htrue => hsent (hiff.mp htrue)
      simp [hfalse, hsent, hhandler]

theorem take_lastRuns_irp (k : Nat) :
    ((lastRuns env drv).take k).filter (fun r => decide (r.type = .irp)) = (irpRuns env drv).take k := by
  have hirps : ((irpRuns env drv).take k).filter (fun r => decide (r.type = .irp)) =
      (irpRuns env drv).take k := by
    apply List.filter_eq_self.mpr
    intro r hr
    exact decide_eq_true (irpRuns_type (List.mem_of_mem_take hr))
  have hunload : ((unloadRuns drv).take (k - (irpRuns env drv).length)).filter
      (fun r => decide (r.type = .irp)) = [] := by
    apply List.filter_eq_nil_iff.mpr
    intro r hr
    simp [unloadRuns_type (List.mem_of_mem_take hr)]
  unfold lastRuns
  rw [List.take_append, List.filter_append, hirps, hunload, List.append_nil]

/-- The IRPs that were sent when the queue is empty. -/
theorem Inv.irps (h : Inv env others drv entryPoint k s) (hqueue : s.runQueue = []) :
    s.runs.filter (fun r => decide (r.type = .irp)) = (irpRuns env drv).take k := by
  have hadded : s.runs = s.added := by
    have := h.once
    rw [hqueue, List.append_nil] at this
    exact this
  have hdriver : s.runs.filter (fun r => decide (r.type = .irp)) =
      (driverRuns s.added).filter (fun r => decide (r.type = .irp)) := by
    unfold driverRuns
    rw [List.filter_filter, hadded]
    apply List.filter_congr
    intro r _
    cases r.type <;> rfl
  have hlisted := congrArg (List.filter fun r : DriverRun => decide (r.type = .irp)) h.listed
  have hentry : (entryRun env drv entryPoint).filter (fun r => decide (r.type = .irp)) = [] := by
    apply List.filter_eq_nil_iff.mpr
    intro r hr
    simp [entryRun_type hr]
  have hexports : (exportRuns env drv).filter (fun r => decide (r.type = .irp)) = [] := by
    apply List.filter_eq_nil_iff.mpr
    intro r hr
    simp [exportRuns_type hr]
  rw [List.filter_append, List.filter_append, List.filter_append, hentry, hexports,
    take_lastRuns_irp, List.nil_append, List.nil_append, ← hdriver] at hlisted
  rcases h.waiting with hnone | hzero
  · rw [hnone, List.filter_nil, List.append_nil] at hlisted
    exact hlisted
  · rw [hzero, List.take_zero, List.append_eq_nil_iff] at hlisted
    rw [hzero, List.take_zero]
    exact hlisted.1

/-- The state after the waiting exports were added to the queue. -/
def takeDelayed (s : KernelEmu) : KernelEmu :=
  { s.addRuns s.delayedRuns with delayedRuns := [] }

theorem unload_eq (s : KernelEmu) (hk : (irpRuns env drv).length ≤ k)
    (hbound : k ≤ (lastRuns env drv).length) :
    s.driverUnload { drv with unloadCalled := decide ((irpRuns env drv).length < k) } =
      match (lastRuns env drv)[k]? with
      | some r => (s.addRun r, { drv with unloadCalled := true })
      | none => (s.onEmuComplete, { drv with unloadCalled := decide ((irpRuns env drv).length < k) }) := by
  have hlast : (lastRuns env drv)[k]? = (unloadRuns drv)[k - (irpRuns env drv).length]? := by
    unfold lastRuns
    exact List.getElem?_append_right hk
  have hlength : (lastRuns env drv).length = (irpRuns env drv).length + (unloadRuns drv).length := by
    unfold lastRuns
    exact List.length_append
  unfold driverUnload
  rw [hlast]
  by_cases hunload : drv.onUnload = 0
  · have hnone : unloadRuns drv = [] := if_pos hunload
    rw [hnone, if_pos (Or.inl hunload)]
    rfl
  · have hone : unloadRuns drv = [unloadRun drv] := if_neg hunload
    rw [hone] at hlength ⊢
    by_cases hdone : (irpRuns env drv).length < k
    · have hsub : k - (irpRuns env drv).length = 1 := by
        rw [List.length_singleton] at hlength
        omega
      rw [hsub, if_pos (Or.inr (decide_eq_true hdone))]
      rfl
    · have hsub : k - (irpRuns env drv).length = 0 := by omega
      rw [hsub, if_neg (by simp [hunload, hdone])]
      rfl

section

variable {d : DriverObject} (hqueue : s.runQueue = []) (hall : s.allEntrypoints = true)
include hqueue hall

theorem nextDriverFunc_irp {irp : Nat × String} {dev : Nat} {rest : List Nat}
    (hirp : s.nextIrp d = some irp) (hdev : d.devices = dev :: rest) :
    s.nextDriverFunc env d = (s.takeDelayed.addRun (irpRun env d dev irp), d) := by
  unfold KernelEmu.nextDriverFunc
  rw [if_neg (not_not.mpr hqueue), if_neg (by simp [hall])]
  simp only [hirp, hdev]
  rfl

theorem nextDriverFunc_unload (hnone : s.nextIrp d = none ∨ d.devices = []) :
    s.nextDriverFunc env d = s.takeDelayed.driverUnload d := by
  unfold KernelEmu.nextDriverFunc
  rw [if_neg (not_not.mpr hqueue), if_neg (by simp [hall])]
  rcases hnone with hirp | hdev
  · simp only [hirp]
    rfl
  · simp only [hdev]
    cases s.nextIrp d <;> rfl

end

/-- With an empty queue the emulator takes the exports that wait, and the next of the last runs. -/
theorem Inv.nextDriverFunc (h : Inv env others drv entryPoint k s) (hqueue : s.runQueue = []) :
    s.nextDriverFunc env { drv with unloadCalled := decide ((irpRuns env drv).length < k) } =
      match (lastRuns env drv)[k]? with
      | some r => (s.takeDelayed.addRun r,
          { drv with unloadCalled := decide ((irpRuns env drv).length < k + 1) })
      | none => (s.takeDelayed.onEmuComplete,
          { drv with unloadCalled := decide ((irpRuns env drv).length < k) }) := by
  by_cases hk : (irpRuns env drv).length ≤ k
  · have hcalled : decide ((irpRuns env drv).length < k + 1) = true :=
      decide_eq_true (Nat.lt_succ_of_le hk)
    have hnone : s.nextIrp drv = none ∨ drv.devices = [] := by
      cases hdev : drv.devices with
      | nil => exact Or.inr rfl
      | cons dev rest =>
        left
        rw [nextIrp_eq hdev (h.irps hqueue), List.getElem?_eq_none]
        rw [irpRuns_eq hdev, List.length_map] at hk
        exact hk
    have hstep : s.nextDriverFunc env
        { drv with unloadCalled := decide ((irpRuns env drv).length < k) } =
          s.takeDelayed.driverUnload
            { drv with unloadCalled := decide ((irpRuns env drv).length < k) } :=
      nextDriverFunc_unload hqueue h.entrypoints hnone
    rw [hstep, unload_eq s.takeDelayed hk h.bound, hcalled]
  · have hlt : k < (irpRuns env drv).length := Nat.lt_of_not_le hk
    have hdevices : drv.devices ≠ [] := by
      intro hnil
      have hirps : irpRuns env drv = [] := by
        unfold irpRuns
        rw [hnil]
      rw [hirps] at hlt
      exact absurd hlt (Nat.not_lt_zero k)
    obtain ⟨dev, rest, hdev⟩ := List.exists_cons_of_ne_nil hdevices
    have hlast : (lastRuns env drv)[k]? = ((handled drv)[k]?).map (irpRun env drv dev) := by
      unfold lastRuns
      rw [List.getElem?_append_left hlt, irpRuns_eq hdev, List.getElem?_map]
    have hsome : k < (handled drv).length := by
      rw [irpRuns_eq hdev, List.length_map] at hlt
      exact hlt
    have hold : decide ((irpRuns env drv).length < k) = decide ((irpRuns env drv).length < k + 1) := by
      rw [decide_eq_decide]
      omega
    have hirp : s.nextIrp drv = some (handled drv)[k] := by
      rw [nextIrp_eq hdev (h.irps hqueue)]
      exact List.getElem?_eq_getElem hsome
    have hstep : s.nextDriverFunc env
        { drv with unloadCalled := decide ((irpRuns env drv).length < k) } =
          (s.takeDelayed.addRun (irpRun env drv dev (handled drv)[k]),
            { drv with unloadCalled := decide ((irpRuns env drv).length < k) }) :=
      nextDriverFunc_irp hqueue h.entrypoints hirp hdev
    rw [hstep, hlast, List.getElem?_eq_getElem hsome, ← hold]
    rfl

end KernelEmu

end Speakeasy
