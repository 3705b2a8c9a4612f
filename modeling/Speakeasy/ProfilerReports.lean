import Speakeasy.ProfilerEvents
import Mathlib.Data.List.Induction

namespace Speakeasy

theorem sum_map_set {α : Type} {l : List α} {f : α → Nat} {i k : Nat} {e e' : α}
    (hi : l[i]? = some e) (he : f e' = f e + k) :
    ((l.set i e').map f).sum = (l.map f).sum + k := by
  induction l generalizing i with
  | nil => cases hi
  | cons x l ih =>
    cases i with
    | zero =>
      cases hi
      simp only [List.set_cons_zero, List.map_cons, List.sum_cons]
      omega
    | succ i =>
      have hrest := ih hi
      simp only [List.set_cons_succ, List.map_cons, List.sum_cons]
      omega

theorem exists_mem_set {α : Type} {l : List α} {P : α → Prop} {i : Nat} {e e' : α}
    (hi : l[i]? = some e) (hmono : P e → P e') :
    (∃ x ∈ l.set i e', P x) ↔ (∃ x ∈ l, P x) ∨ P e' := by
  constructor
  · rintro ⟨x, hx, hp⟩
    rcases List.mem_or_eq_of_mem_set hx with hx | rfl
    · exact Or.inl ⟨x, hx, hp⟩
    · exact Or.inr hp
  · have hlt := (List.getElem?_eq_some_iff.mp hi).1
    rintro (⟨x, hx, hp⟩ | hp)
    · obtain ⟨j, hj⟩ := List.mem_iff_getElem?.mp hx
      by_cases hij : i = j
      · subst hij
        have hxe : e = x := Option.some.inj (hi.symm.trans hj)
        subst hxe
        exact ⟨e', List.mem_set hlt e', hmono hp⟩
      · refine ⟨x, List.mem_iff_getElem?.mpr ⟨j, ?_⟩, hp⟩
        rw [List.getElem?_set_ne hij]
        exact hj
    · exact ⟨e', List.mem_set hlt e', hp⟩

namespace Profiler

variable {s : Profiler} {c : ProcessCall} {calls : List ProcessCall}

theorem mergeTarget_some {run i : Nat} {e : ProcessEvent} (h : s.mergeTarget c = some (run, i, e)) :
    c.IsMemory ∧ s.lastData.1 + s.lastData.2 = c.base ∧ s.lastEvent = some (run, i) ∧
      (s.events run)[i]? = some e ∧ e.type = c.type := by
  unfold mergeTarget at h
  split at h
  next hmem =>
    obtain ⟨x, hx, h⟩ := Option.bind_eq_some_iff.mp h
    obtain ⟨e', he, h⟩ := Option.bind_eq_some_iff.mp h
    split at h
    next htype =>
      cases h
      exact ⟨hmem.1, hmem.2, hx, he, htype⟩
    next => cases h
  next => cases h

/-- The event that a call appends is about its target process. -/
theorem target_of_proc (c : ProcessCall) :
    (if c.procId = c.pos.pid then none else some c.procId).getD c.pos.pid = c.procId := by
  by_cases h : c.procId = c.pos.pid
  · rw [if_pos h, h]
    rfl
  · rw [if_neg h]
    rfl

theorem reportedSize_append (type : ProcessEventType) (run target : Nat) :
    reportedSize (s.append c) type run target = reportedSize s type run target +
      if c.type = type ∧ c.run = run ∧ c.procId = target then c.size else 0 := by
  unfold reportedSize append
  by_cases hrun : run = c.run
  · subst hrun
    simp only [Function.update_self, List.map_append, List.map_cons, List.map_nil, List.sum_append,
      List.sum_cons, List.sum_nil, Nat.add_zero, ProcessEvent.target, target_of_proc, true_and]
  · simp only [Function.update_of_ne hrun]
    rw [if_neg, Nat.add_zero]
    rintro ⟨-, hsame, -⟩
    exact hrun hsame.symm

theorem reported_append (type : ProcessEventType) (run target a : Nat) :
    Reported (s.append c) type run target a ↔ Reported s type run target a ∨
      (c.type = type ∧ c.run = run ∧ c.procId = target ∧ CoveredBy a c.base c.size) := by
  unfold Reported append
  by_cases hrun : run = c.run
  · subst hrun
    simp only [Function.update_self, List.mem_append, List.mem_singleton, or_and_right, exists_or,
      exists_eq_left, ProcessEvent.target, target_of_proc, true_and]
  · simp only [Function.update_of_ne hrun]
    have hne : ¬ c.run = run := fun hsame => hrun hsame.symm
    simp [hne]

section

variable {run i : Nat} {e : ProcessEvent}

theorem recordProcessEvent_merge (h : s.mergeTarget c = some (run, i, e)) :
    s.recordProcessEvent c = { s with
      events := Function.update s.events run ((s.events run).set i
        { e with
          dataRef := mergeBinaryData e.dataRef c.data artifactLimit
          size := e.size + c.data.length })
      lastData := (c.base, c.size) } := by
  unfold recordProcessEvent
  rw [h]

theorem recordProcessEvent_append (h : s.mergeTarget c = none) :
    s.recordProcessEvent c = s.append c := by
  unfold recordProcessEvent
  rw [h]

theorem reportedSize_merge (h : s.mergeTarget c = some (run, i, e)) (type : ProcessEventType)
    (run' target : Nat) : reportedSize (s.recordProcessEvent c) type run' target =
      reportedSize s type run' target +
        if c.type = type ∧ run = run' ∧ e.target = target then c.data.length else 0 := by
  obtain ⟨-, -, -, hi, htype⟩ := mergeTarget_some h
  rw [recordProcessEvent_merge h]
  unfold reportedSize
  by_cases hrun : run' = run
  · subst hrun
    simp only [Function.update_self]
    apply sum_map_set hi
    simp only [ProcessEvent.target, htype, true_and]
    split <;> rfl
  · simp only [Function.update_of_ne hrun]
    have hne : ¬ run = run' := fun hsame => hrun hsame.symm
    simp [hne]

theorem reported_merge (h : s.mergeTarget c = some (run, i, e)) (type : ProcessEventType)
    (run' target a : Nat) : Reported (s.recordProcessEvent c) type run' target a ↔
      Reported s type run' target a ∨
        (c.type = type ∧ run = run' ∧ e.target = target ∧
          CoveredBy a e.base (e.size + c.data.length)) := by
  obtain ⟨-, -, -, hi, htype⟩ := mergeTarget_some h
  rw [recordProcessEvent_merge h]
  unfold Reported
  by_cases hrun : run' = run
  · subst hrun
    simp only [Function.update_self]
    rw [exists_mem_set hi]
    · simp only [ProcessEvent.target, htype, true_and]
    · rintro ⟨htype, htarget, hle, hlt⟩
      exact ⟨htype, htarget, hle, by simp only; omega⟩
  · simp only [Function.update_of_ne hrun]
    have hne : ¬ run = run' := fun hsame => hrun hsame.symm
    simp [hne]

end

theorem recordedSize_concat (type : ProcessEventType) (run target : Nat) :
    recordedSize (calls ++ [c]) type run target = recordedSize calls type run target +
      if c.type = type ∧ c.run = run ∧ c.procId = target then c.size else 0 := by
  simp [recordedSize]

theorem recorded_concat (type : ProcessEventType) (run target a : Nat) :
    Recorded (calls ++ [c]) type run target a ↔ Recorded calls type run target a ∨
      (c.type = type ∧ c.run = run ∧ c.procId = target ∧ CoveredBy a c.base c.size) := by
  simp [Recorded, or_and_right, exists_or]

/-- The range of the last event ends where the one of the last call does. -/
def LastEnds (s : Profiler) : Prop :=
  ∀ run i e, s.lastEvent = some (run, i) → (s.events run)[i]? = some e →
    e.type = .memWrite ∨ e.type = .memRead → e.base + e.size = s.lastData.1 + s.lastData.2

theorem lastEnds_record (h : LastEnds s) (hright : MergesRight s c) :
    LastEnds (s.recordProcessEvent c) := by
  intro run i e hlast he hmem
  cases htarget : s.mergeTarget c with
  | some x =>
    obtain ⟨run', i', e'⟩ := x
    obtain ⟨hc, hbase, hlast', hi, htype⟩ := mergeTarget_some htarget
    have hlt := (List.getElem?_eq_some_iff.mp hi).1
    have hsize := (hright run' i' e' htarget).1
    have hend := h run' i' e' hlast' hi (htype ▸ hc)
    rw [recordProcessEvent_merge htarget] at hlast he ⊢
    simp only at hlast he ⊢
    rw [hlast'] at hlast
    cases hlast
    rw [Function.update_self, List.getElem?_set_self hlt] at he
    cases he
    simp only
    omega
  | none =>
    rw [recordProcessEvent_append htarget] at hlast he ⊢
    unfold append at hlast he ⊢
    simp only at hlast he ⊢
    cases hlast
    rw [Function.update_self, List.getElem?_append_right (Nat.le_refl _), Nat.sub_self] at he
    cases he
    have hc : c.IsMemory := hmem
    simp only [if_pos hc]

/-- A call that merges rightly, or that is appended, leaves the events complete. -/
theorem complete_record (h : EventsComplete s calls) (hends : LastEnds s) (hright : MergesRight s c) :
    EventsComplete (s.recordProcessEvent c) (calls ++ [c]) := by
  cases htarget : s.mergeTarget c with
  | none =>
    rw [recordProcessEvent_append htarget]
    constructor
    · intro type run target hmem
      rw [reportedSize_append, recordedSize_concat, h.size type run target hmem]
    · intro type run target a hmem
      rw [reported_append, recorded_concat, h.covered type run target a hmem]
  | some x =>
    obtain ⟨run', i', e⟩ := x
    obtain ⟨hc, hbase, hlast, hi, htype⟩ := mergeTarget_some htarget
    have hend := hends run' i' e hlast hi (htype ▸ hc)
    obtain ⟨hsize, howner⟩ := hright run' i' e htarget
    constructor
    · intro type run target hmem
      rw [reportedSize_merge htarget, recordedSize_concat, h.size type run target hmem, hsize]
      rcases howner with hzero | ⟨hrun, htargets⟩
      · simp [hzero]
      · rw [hrun, htargets]
    · intro type run target a hmem
      rw [reported_merge htarget, recorded_concat, ← h.covered type run target a hmem, hsize]
      have hold : c.type = type ∧ run' = run ∧ e.target = target ∧ CoveredBy a e.base e.size →
          Reported s type run target a := by
        rintro ⟨hct, rfl, het, hcov⟩
        exact ⟨e, List.mem_of_getElem? hi, htype.trans hct, het, hcov⟩
      have hsplit : CoveredBy a e.base (e.size + c.size) ↔
          CoveredBy a e.base e.size ∨ CoveredBy a c.base c.size := by
        unfold CoveredBy
        omega
      rw [hsplit]
      rcases howner with hzero | ⟨hrun, htargets⟩
      · have hempty : ¬ CoveredBy a c.base c.size := by
          unfold CoveredBy
          omega
        constructor
        · rintro (hr | ⟨hct, hr, het, hcov | hcov⟩)
          · exact Or.inl hr
          · exact Or.inl (hold ⟨hct, hr, het, hcov⟩)
          · exact absurd hcov hempty
        · rintro (hr | ⟨-, -, -, hcov⟩)
          · exact Or.inl hr
          · exact absurd hcov hempty
      · rw [hrun, htargets] at hold ⊢
        constructor
        · rintro (hr | ⟨hct, hr, het, hcov | hcov⟩)
          · exact Or.inl hr
          · exact Or.inl (hold ⟨hct, hr, het, hcov⟩)
          · exact Or.inr ⟨hct, hr, het, hcov⟩
        · rintro (hr | ⟨hct, hr, het, hcov⟩)
          · exact Or.inl hr
          · exact Or.inr ⟨hct, hr, het, Or.inr hcov⟩

/-- When the sizes agree before and after a call, the call did not merge wrongly. -/
theorem mergesRight_of_complete (h : EventsComplete s calls)
    (h' : EventsComplete (s.recordProcessEvent c) (calls ++ [c])) : MergesRight s c := by
  intro run i e htarget
  obtain ⟨hc, -, -, -, -⟩ := mergeTarget_some htarget
  have hsum : ∀ run' target, (if c.type = c.type ∧ run = run' ∧ e.target = target then c.data.length
      else 0) = if c.type = c.type ∧ c.run = run' ∧ c.procId = target then c.size else 0 := by
    intro run' target
    have hbefore := h.size c.type run' target hc
    have hafter := h'.size c.type run' target hc
    rw [reportedSize_merge htarget, recordedSize_concat] at hafter
    omega
  have hcall := hsum c.run c.procId
  have hevent := hsum run e.target
  simp only [true_and, and_self, if_true] at hcall hevent
  by_cases howner : run = c.run ∧ e.target = c.procId
  · rw [if_pos howner] at hcall
    exact ⟨hcall, Or.inr howner⟩
  · have howner' : ¬(c.run = run ∧ c.procId = e.target) := fun hsame =>
      howner ⟨hsame.1.symm, hsame.2.symm⟩
    rw [if_neg howner] at hcall
    rw [if_neg howner'] at hevent
    exact ⟨hevent.trans hcall, Or.inl hcall.symm⟩

theorem complete_initial : EventsComplete initial [] where
  size _ _ _ _ := rfl
  covered type run target a _ := by simp [Reported, Recorded, initial]

@[simp] theorem ofCalls_concat (calls : List ProcessCall) (c : ProcessCall) :
    ofCalls (calls ++ [c]) = (ofCalls calls).recordProcessEvent c := List.foldl_append

/-- The events are complete after every call exactly when no call merges wrongly. -/
theorem events_complete_iff (calls : List ProcessCall) :
    (∀ done, done <+: calls → EventsComplete (ofCalls done) done) ↔
      ∀ done c, done ++ [c] <+: calls → MergesRight (ofCalls done) c := by
  constructor
  · intro h done c hprefix
    have hbefore := h done ((List.prefix_append done [c]).trans hprefix)
    have hafter := h (done ++ [c]) hprefix
    rw [ofCalls_concat] at hafter
    exact mergesRight_of_complete hbefore hafter
  · intro h done
    have hinv : done <+: calls → EventsComplete (ofCalls done) done ∧ LastEnds (ofCalls done) := by
      induction done using List.reverseRecOn with
      | nil =>
        intro _
        refine ⟨complete_initial, ?_⟩
        intro run i e hlast
        cases hlast
      | append_singleton done c ih =>
        intro hprefix
        obtain ⟨hcomplete, hends⟩ := ih ((List.prefix_append done [c]).trans hprefix)
        have hright := h done c hprefix
        rw [ofCalls_concat]
        exact ⟨complete_record hcomplete hends hright, lastEnds_record hends hright⟩
    exact fun hprefix => (hinv hprefix).1

/-- A write to a second process at the end of the range that was written in the first. -/
theorem events_not_complete : ¬ EventsComplete
    (ofCalls [⟨0, ⟨4, 8⟩, 1, [], .memWrite, 0x1000, 2, [1, 2]⟩,
      ⟨0, ⟨4, 8⟩, 2, [], .memWrite, 0x1002, 2, [3, 4]⟩])
    [⟨0, ⟨4, 8⟩, 1, [], .memWrite, 0x1000, 2, [1, 2]⟩,
      ⟨0, ⟨4, 8⟩, 2, [], .memWrite, 0x1002, 2, [3, 4]⟩] := by
  intro h
  have := h.size .memWrite 0 2 (Or.inl rfl)
  exact absurd this (by decide)

end Profiler

end Speakeasy
