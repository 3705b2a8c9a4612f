import Speakeasy.DriverReturns
import Mathlib.Data.List.Induction
import Mathlib.Data.List.Infix

namespace Speakeasy

namespace KernelEmu

variable {env : KernelEnv} {others : List DriverObject} {drv : DriverObject} {entryPoint : Option Nat}
  {k : Nat} {s : KernelEmu}

section

variable (hload : DriverLoaded env others drv entryPoint)
include hload

/-- The state is on its way, or complete with all entry points run. -/
def Good (env : KernelEnv) (others : List DriverObject) (drv : DriverObject)
    (entryPoint : Option Nat) (s : KernelEmu) : Prop :=
  (∃ k, Inv env others drv entryPoint k s ∧ Running s) ∨
    s.isEmuComplete = true ∧ Covered env drv entryPoint s

omit hload in
theorem Good.covered (h : Good env others drv entryPoint s) : Covered env drv entryPoint s := by
  rcases h with ⟨k, hinv, hrun⟩ | ⟨-, hcovered⟩
  · exact hinv.covered hrun
  · exact hcovered

theorem Inv.good_ended (h : Inv env others drv entryPoint k s) (hrun : Running s)
    (hqueue : s.runQueue = []) (hend : s.currMod ≠ some drv.pe ∨ k = (lastRuns env drv).length)
    (hall : driverRuns s.runs = entryPoints env drv entryPoint) :
    Good env others drv entryPoint (s.returnRun env) := by
  obtain ⟨hcomplete, hreturned, hrest⟩ := h.returnRun_ended hload hrun hqueue hend
  obtain ⟨hruns, hempty, hadded⟩ := hrest (h.delayed_eq_nil hqueue hall)
  refine Or.inr ⟨hcomplete, ?_, ?_, ?_, ?_⟩
  · rw [hruns, hall]
  · rw [hruns, hempty, hadded, List.append_nil]
    exact h.runs_eq_added hqueue
  · intro hlive
    rw [hcomplete] at hlive
    cases hlive
  · intro _
    rw [hreturned, hruns]
    exact ⟨hall, rfl⟩

omit hload in
/-- All entry points are among the runs when nothing waits and all last runs were added. -/
theorem Inv.all_run (h : Inv env others drv entryPoint k s) (hqueue : s.runQueue = [])
    (hdelayed : s.delayedRuns = []) (hk : k = (lastRuns env drv).length) :
    driverRuns s.runs = entryPoints env drv entryPoint := by
  have hlisted := h.listed
  rw [hdelayed, hk, List.take_length, List.append_nil] at hlisted
  rw [h.runs_eq_added hqueue, hlisted, entryPoints_eq]

theorem Inv.returnRun_good (h : Inv env others drv entryPoint k s) (hrun : Running s)
    (hreturn : ReturnCovers env drv entryPoint s) :
    Good env others drv entryPoint (s.returnRun env) := by
  by_cases hqueue : s.runQueue = []
  · by_cases hall : driverRuns s.runs = entryPoints env drv entryPoint
    · by_cases hmod : s.currMod = some drv.pe
      · by_cases hk : k < (lastRuns env drv).length
        · exact Or.inl ⟨k + 1, h.returnRun_next hload hrun hqueue hmod hk⟩
        · have hk : k = (lastRuns env drv).length := Nat.le_antisymm h.bound (Nat.not_lt.mp hk)
          exact h.good_ended hload hrun hqueue (Or.inr hk) hall
      · exact h.good_ended hload hrun hqueue (Or.inl hmod) hall
    · have hmod := hreturn.inModule h.live hqueue hall
      by_cases hk : k < (lastRuns env drv).length
      · exact Or.inl ⟨k + 1, h.returnRun_next hload hrun hqueue hmod hk⟩
      · exfalso
        have hk : k = (lastRuns env drv).length := Nat.le_antisymm h.bound (Nat.not_lt.mp hk)
        have hdelayed : s.delayedRuns ≠ [] := fun hnil => hall (h.all_run hqueue hnil hk)
        have hzero := h.waiting.resolve_left hdelayed
        have hlast : lastRuns env drv = [] := List.eq_nil_of_length_eq_zero (hk.symm.trans hzero)
        obtain ⟨hirps, hunloads⟩ := List.append_eq_nil_iff.mp hlast
        rcases hreturn.followed h.live hqueue hdelayed with hirp | hunload
        · exact hirp hirps
        · have hone : unloadRuns drv = [unloadRun drv] := if_neg hunload
          rw [hone] at hunloads
          cases hunloads
  · exact Or.inl ⟨k, h.returnRun_queued hrun hqueue⟩

/-- Where the condition fails, the emulation is complete too early. -/
theorem Inv.returnCovers (h : Inv env others drv entryPoint k s) (hrun : Running s)
    (hcovered : Covered env drv entryPoint (s.returnRun env)) :
    ReturnCovers env drv entryPoint s := by
  have htooEarly : s.runQueue = [] → (s.currMod ≠ some drv.pe ∨ k = (lastRuns env drv).length) →
      driverRuns s.runs = entryPoints env drv entryPoint := by
    intro hqueue hend
    obtain ⟨hcomplete, hreturned, -⟩ := h.returnRun_ended hload hrun hqueue hend
    have hall := (hcovered.complete hcomplete).1
    rw [hreturned] at hall
    exact hall
  constructor
  · intro _ hqueue hleft
    by_contra hmod
    exact hleft (htooEarly hqueue (Or.inl hmod))
  · intro _ hqueue hdelayed
    by_contra hnone
    obtain ⟨hirps, hunload⟩ := not_or.mp hnone
    have hzero := h.waiting.resolve_left hdelayed
    have hunloads : unloadRuns drv = [] := if_pos (not_not.mp hunload)
    have hlast : lastRuns env drv = [] := by
      unfold lastRuns
      rw [not_not.mp hirps, hunloads]
      rfl
    have hk : k = (lastRuns env drv).length := by
      rw [hlast]
      exact hzero
    exact hdelayed (h.delayed_eq_nil hqueue (htooEarly hqueue (Or.inr hk)))

omit hload in
theorem Inv.addRun (h : Inv env others drv entryPoint k s) (r : GuestRun) :
    Inv env others drv entryPoint k (s.addRun r.val) := by
  have hguest : driverRuns [r.val] = [] := by
    apply List.filter_eq_nil_iff.mpr
    intro x hx
    rw [List.mem_singleton.mp hx, r.property]
    exact Bool.noConfusion
  refine ⟨h.entrypoints, h.live, ?_, h.bound, ?_, h.waiting, h.drivers⟩
  · show s.runs ++ (s.runQueue ++ [r.val]) = s.added ++ [r.val]
    rw [← h.once, List.append_assoc]
  · show driverRuns (s.added ++ [r.val]) ++ s.delayedRuns = _
    rw [driverRuns_append, hguest, List.append_nil]
    exact h.listed

omit hload in
theorem step_complete (h : s.isEmuComplete = true) (op : KernelOp) : s.step env op = s := if_pos h

omit hload in
theorem step_live (h : s.isEmuComplete = false) (op : KernelOp) :
    s.step env op = match op with
      | .addRun r => s.addRun r.val
      | .returnRun => s.returnRun env :=
  if_neg (by simp [h])

theorem Good.step (h : Good env others drv entryPoint s) (op : KernelOp)
    (hreturn : op = .returnRun → ReturnCovers env drv entryPoint s) :
    Good env others drv entryPoint (s.step env op) := by
  rcases h with ⟨k, hinv, hrun⟩ | ⟨hcomplete, hcovered⟩
  · rw [step_live hinv.live]
    cases op with
    | addRun r => exact Or.inl ⟨k, hinv.addRun r, hrun⟩
    | returnRun => exact hinv.returnRun_good hload hrun (hreturn rfl)
  · rw [step_complete hcomplete]
    exact Or.inr ⟨hcomplete, hcovered⟩

theorem Good.returnCovers (h : Good env others drv entryPoint s)
    (hcovered : Covered env drv entryPoint (s.step env .returnRun)) :
    ReturnCovers env drv entryPoint s := by
  rcases h with ⟨k, hinv, hrun⟩ | ⟨hcomplete, -⟩
  · rw [step_live hinv.live] at hcovered
    exact hinv.returnCovers hload hrun hcovered
  · constructor
    · intro hlive
      rw [hcomplete] at hlive
      cases hlive
    · intro hlive
      rw [hcomplete] at hlive
      cases hlive

theorem good_runModule : Good env others drv entryPoint (runModule env others drv entryPoint true) := by
  have hdriver : driverRuns (entryRun env drv entryPoint) = entryRun env drv entryPoint := by
    apply driverRuns_eq_self
    intro r hr
    rw [entryRun_type hr]
    rfl
  have hdrv : { drv with unloadCalled := decide ((irpRuns env drv).length < 0) } = drv := by
    have hfalse : decide ((irpRuns env drv).length < 0) = drv.unloadCalled := by
      rw [hload.notUnloaded]
      exact decide_eq_false (Nat.not_lt_zero _)
    rw [hfalse]
  obtain ⟨r, queue, hentry⟩ := List.exists_cons_of_ne_nil hload.entry
  have hstart : runModule env others drv entryPoint true = prepareRunContext env
      { allEntrypoints := true
        runQueue := queue
        delayedRuns := exportRuns env drv
        runs := []
        currRun := none
        currMod := none
        drivers := others ++ [drv]
        isEmuComplete := false
        returned := []
        added := entryRun env drv entryPoint } r := by
    unfold runModule
    simp only [hentry]
    rfl
  rw [hstart]
  refine Or.inl ⟨0, ⟨rfl, rfl, ?_, Nat.zero_le _, ?_, Or.inr rfl, ?_⟩, r, rfl, rfl⟩
  · exact hentry.symm
  · show driverRuns (entryRun env drv entryPoint) ++ exportRuns env drv = _
    rw [hdriver, List.take_zero, List.append_nil]
  · show others ++ [drv] = _
    rw [hdrv]

omit hload in
theorem run_concat (s : KernelEmu) (ops : List KernelOp) (op : KernelOp) :
    s.run env (ops ++ [op]) = (s.run env ops).step env op := List.foldl_concat _ _ _ _

theorem good_run (ops : List KernelOp)
    (hreturns : ∀ pre, pre ++ [.returnRun] <+: ops →
      ReturnCovers env drv entryPoint ((runModule env others drv entryPoint true).run env pre)) :
    Good env others drv entryPoint ((runModule env others drv entryPoint true).run env ops) := by
  induction ops using List.reverseRecOn with
  | nil => exact good_runModule hload
  | append_singleton ops op ih =>
    have hgood := ih fun pre hpre => hreturns pre (hpre.trans (List.prefix_append _ _))
    rw [run_concat]
    refine hgood.step hload op fun hop => ?_
    rw [hop] at hreturns
    exact hreturns ops List.prefix_rfl

theorem run_returnCovers (ops : List KernelOp)
    (hcovered : ∀ pre, pre <+: ops →
      Covered env drv entryPoint ((runModule env others drv entryPoint true).run env pre)) :
    ∀ pre, pre ++ [.returnRun] <+: ops →
      ReturnCovers env drv entryPoint ((runModule env others drv entryPoint true).run env pre) := by
  induction ops using List.reverseRecOn with
  | nil =>
    intro pre hpre
    have := List.prefix_nil.mp hpre
    simp at this
  | append_singleton ops op ih =>
    have hearlier := ih fun pre hpre => hcovered pre (hpre.trans (List.prefix_append _ _))
    intro pre hpre
    rcases List.prefix_concat_iff.mp hpre with hlast | hpre
    · obtain ⟨hops, hop⟩ := List.append_inj' hlast rfl
      rw [hops]
      apply (good_run hload ops hearlier).returnCovers hload
      rw [← run_concat, ← hops, hpre.eq_of_length (congrArg List.length hlast)]
      exact hcovered _ List.prefix_rfl
    · exact hearlier pre hpre

end

/-- The entry points of a driver are covered in every state of a run exactly if the condition holds
whenever a run returns. -/
theorem run_covered_iff (hload : DriverLoaded env others drv entryPoint) (ops : List KernelOp) :
    (∀ pre, pre <+: ops →
      Covered env drv entryPoint ((runModule env others drv entryPoint true).run env pre)) ↔
    ∀ pre, pre ++ [.returnRun] <+: ops →
      ReturnCovers env drv entryPoint ((runModule env others drv entryPoint true).run env pre) := by
  constructor
  · exact run_returnCovers hload ops
  · intro hreturns pre hpre
    apply (good_run hload pre _).covered
    intro earlier hearlier
    exact hreturns earlier (hearlier.trans hpre)

def sampleEnv : KernelEnv where
  modules := [⟨0x10000, 0x1000, 0x10, [⟨some "Exported", 0x10020⟩]⟩]
  exportArgs := [0x50000, 0x50008, 0x50010, 0x50018]
  newIrp _ := 0x60000

def sampleDriver (devices : List Nat) (unload : Nat) : DriverObject where
  pe := 0
  address := 0x70000
  regPathPtr := 0x71000
  devices := devices
  mjFuncs major := if major = 0x0E then 0x10040 else 0
  onUnload := unload
  unloadCalled := false

theorem driverLoaded_sample (devices : List Nat) (unload : Nat) :
    DriverLoaded sampleEnv [] (sampleDriver devices unload) none where
  entry := by
    show [_] ≠ []
    exact List.cons_ne_nil _ _
  notUnloaded := rfl
  apart _ hd := by cases hd
  blank _ hd := by cases hd

theorem run_covered_sample : Covered sampleEnv (sampleDriver [0x72000] 0x10060) none
    ((runModule sampleEnv [] (sampleDriver [0x72000] 0x10060) none true).run sampleEnv
      (List.replicate 4 .returnRun)) := by
  have hreturns : ∀ pre ∈ (List.replicate 4 KernelOp.returnRun).inits,
      ((runModule sampleEnv [] (sampleDriver [0x72000] 0x10060) none true).run sampleEnv
        pre.dropLast).currMod = some 0 := by
    decide
  have hirps : irpRuns sampleEnv (sampleDriver [0x72000] 0x10060) ≠ [] := by decide
  apply (run_covered_iff (driverLoaded_sample [0x72000] 0x10060) (List.replicate 4 .returnRun)).mpr
  · intro pre hpre
    have hmod := hreturns _ ((List.mem_inits _ _).mpr hpre)
    rw [List.dropLast_concat] at hmod
    exact ⟨fun _ _ _ => hmod, fun _ _ _ => Or.inl hirps⟩
  · exact List.prefix_rfl

/-- Without a device and an unload routine, the emulation is complete before the exports ran. -/
theorem run_not_covered : DriverLoaded sampleEnv [] (sampleDriver [] 0) none ∧
    ¬ Covered sampleEnv (sampleDriver [] 0) none
      ((runModule sampleEnv [] (sampleDriver [] 0) none true).run sampleEnv [.returnRun]) := by
  refine ⟨driverLoaded_sample [] 0, ?_⟩
  intro h
  have hall := (h.complete (by decide)).1
  exact absurd hall (by decide)

end KernelEmu

end Speakeasy
