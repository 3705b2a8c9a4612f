import Speakeasy.LoadInitializers

namespace Speakeasy

namespace LoadFrame

theorem queueInitializers_snoc (frame : LoadFrame) (routines : List InitRoutine) (routine : InitRoutine) :
    frame.queueInitializers (routines ++ [routine]) =
      { (frame.queueInitializers routines).setupCallback routine.address with
        initializers := ((frame.queueInitializers routines).setupCallback routine.address).initializers.insert
          routine.address routine } := by
  unfold queueInitializers
  rw [List.foldl_append]
  rfl

/-- The first routine has started, and the others wait in their order. -/
structure Queued (empty : LoadFrame) (routines : List InitRoutine) (frame : LoadFrame) : Prop where
  result : frame.result = empty.result
  failureResult : frame.failureResult = empty.failureResult
  states : frame.states = empty.states
  returned : frame.returned = empty.returned
  started : frame.started = (routines.take 1).map InitRoutine.address
  pending : frame.pending = (routines.drop 1).map InitRoutine.address
  function : ∀ {routine}, routines[0]? = some routine → frame.function = routine.address
  lookup : ∀ address, frame.initializers.get? address = lastAt routines address

theorem queueInitializers_queued {empty : LoadFrame} (hstarted : empty.started = []) (hpending : empty.pending = [])
    (hlookup : empty.initializers = OrderedDict.empty) (routines : List InitRoutine) :
    Queued empty routines (empty.queueInitializers routines) := by
  induction routines using List.reverseRecOn with
  | nil =>
    refine ⟨rfl, rfl, rfl, rfl, hstarted, hpending, fun h => by simp at h, fun address => ?_⟩
    show empty.initializers.get? address = none
    rw [hlookup]
    rfl
  | append_singleton routines last ih =>
    rw [queueInitializers_snoc]
    have hinsert : ∀ address, ((empty.queueInitializers routines).initializers.insert last.address last).get? address =
        lastAt (routines ++ [last]) address := by
      intro address
      rw [OrderedDict.get?_insert, lastAt_snoc, ih.lookup]
      by_cases h : address = last.address
      · rw [if_pos h, if_pos h.symm]
      · rw [if_neg h, if_neg (Ne.symm h)]
    unfold setupCallback
    cases routines with
    | nil =>
      have hnone : (empty.queueInitializers []).started = [] := ih.started
      rw [if_pos hnone]
      refine ⟨ih.result, ih.failureResult, ih.states, ih.returned, rfl, ih.pending, fun h => ?_, hinsert⟩
      rw [← Option.some.inj h]
    | cons first routines =>
      have hsome : (empty.queueInitializers (first :: routines)).started ≠ [] := by
        rw [ih.started]
        simp
      rw [if_neg hsome]
      refine ⟨ih.result, ih.failureResult, ih.states, ih.returned, ih.started, ?_, ih.function, hinsert⟩
      show (empty.queueInitializers (first :: routines)).pending ++ [last.address] = _
      rw [ih.pending]
      simp

/-- The rollback makes no module ready. -/
theorem rollbackGuestLoad_states {frame : LoadFrame} {module : Nat}
    (h : (rollbackGuestLoad frame).states module = some .readyToRun) : frame.states module = some .readyToRun := by
  have hfold : ∀ (routines : List InitRoutine) (states : LoadStates),
      routines.foldl (fun (states : LoadStates) routine =>
        if states routine.module = some .initializing ∨ frame.original routine.module = false then
          Function.update states routine.module none
        else states) states module = some .readyToRun → states module = some .readyToRun := by
    intro routines
    induction routines with
    | nil => exact fun states h => h
    | cons routine routines ih =>
      intro states h
      rw [List.foldl_cons] at h
      have hready := ih _ h
      split at hready
      next =>
        by_cases hmodule : module = routine.module
        · rw [hmodule, Function.update_self] at hready
          simp at hready
        · rwa [Function.update_of_ne hmodule] at hready
      next => exact hready
  exact hfold _ _ h

theorem failLibraryInitializer_states {frame : LoadFrame} {routine : InitRoutine} {module : Nat}
    (h : (frame.failLibraryInitializer routine).states module = some .readyToRun) :
    frame.states module = some .readyToRun := by
  have hready : Function.update frame.states routine.module none module = some .readyToRun :=
    rollbackGuestLoad_states h
  by_cases hmodule : module = routine.module
  · rw [hmodule] at hready
    simp at hready
  · rwa [Function.update_of_ne hmodule] at hready

theorem run_snoc (frame : LoadFrame) (values : List Nat) (value : Nat) :
    frame.run (values ++ [value]) =
      if (frame.run values).returned then frame.run values else (frame.run values).continueGuestCallback value := by
  unfold run
  rw [List.foldl_append]
  rfl

end LoadFrame

namespace LoadCall

variable {load : LoadCall}

/-- The routine with this number runs, and those after it wait. -/
structure At (load : LoadCall) (k : Nat) (frame : LoadFrame) : Prop where
  result : frame.result = load.result
  failureResult : frame.failureResult = load.failureResult
  returned : frame.returned = false
  started : frame.started = (load.routines.take (k + 1)).map InitRoutine.address
  pending : frame.pending = (load.routines.drop (k + 1)).map InitRoutine.address
  function : ∃ routine, load.routines[k]? = some routine ∧ frame.function = routine.address
  lookup : ∀ address, frame.initializers.get? address = lastAt load.routines address

theorem frame_queued (load : LoadCall) : LoadFrame.Queued load.emptyFrame load.routines load.frame :=
  LoadFrame.queueInitializers_queued rfl rfl rfl load.routines

theorem frame_at (hroutines : load.routines ≠ []) : At load 0 load.frame := by
  have hqueued := load.frame_queued
  have hlt : 0 < load.routines.length := List.length_pos_iff.mpr hroutines
  have hfirst : load.routines[0]? = some load.routines[0] := List.getElem?_eq_getElem hlt
  have hreturned : load.routines.isEmpty = false := by
    rw [List.isEmpty_eq_false_iff]
    exact hroutines
  exact ⟨hqueued.result, hqueued.failureResult, hqueued.returned.trans hreturned, hqueued.started, hqueued.pending,
    ⟨_, hfirst, hqueued.function hfirst⟩, hqueued.lookup⟩

/-- The load states after a routine succeeded: what counts is the last routine with its address. -/
def statesAfter (states : LoadStates) (routine : InitRoutine) : LoadStates :=
  if routine.isLast then Function.update states routine.module (some .readyToRun) else states

/-- The function that ran succeeds. -/
theorem At.succeeds {k value : Nat} {frame : LoadFrame} {routine d : InitRoutine} (hat : At load k frame)
    (hk : load.routines[k]? = some routine) (hd : lastAt load.routines routine.address = some d)
    (hvalue : ¬(d.isEntryPoint = true ∧ value &&& 0xFF = 0)) :
    (frame.continueGuestCallback value).states = statesAfter frame.states d ∧
      (k + 1 < load.routines.length → At load (k + 1) (frame.continueGuestCallback value)) ∧
      (load.routines.length ≤ k + 1 → (frame.continueGuestCallback value).returned = true ∧
        (frame.continueGuestCallback value).result = load.result ∧
        (frame.continueGuestCallback value).started = load.routines.map InitRoutine.address) := by
  obtain ⟨current, hcurrent, hfunction⟩ := hat.function
  have hsame : current = routine := Option.some.inj (hcurrent.symm.trans hk)
  have hget : frame.initializers.get? frame.function = some d := by
    rw [hat.lookup, hfunction, hsame, hd]
  have hfinish : frame.finishInitializer d value = (true, { frame with states := statesAfter frame.states d }) := by
    unfold LoadFrame.finishInitializer statesAfter
    have hno : (d.isEntryPoint && decide (value &&& 0xFF = 0)) = false := by
      rw [Bool.eq_false_iff]
      intro h
      rw [Bool.and_eq_true, decide_eq_true_eq] at h
      exact hvalue h
    rw [if_neg (by rw [hno]; exact Bool.false_ne_true)]
    cases d.isLast with
    | false => rfl
    | true => rfl
  unfold LoadFrame.continueGuestCallback
  simp only [hget, hfinish]
  by_cases hlt : k + 1 < load.routines.length
  · have hpending : frame.pending = load.routines[k + 1].address ::
        (load.routines.drop (k + 1 + 1)).map InitRoutine.address := by
      rw [hat.pending, List.drop_eq_getElem_cons hlt]
      rfl
    have hnext : load.routines[k + 1]? = some load.routines[k + 1] := List.getElem?_eq_getElem hlt
    have hstarted : frame.started ++ [load.routines[k + 1].address] =
        (load.routines.take (k + 1 + 1)).map InitRoutine.address := by
      rw [hat.started, List.take_add_one (i := k + 1), hnext, List.map_append]
      rfl
    simp only [if_true, hpending]
    refine ⟨trivial, fun _ => ?_, fun hle => absurd hlt (by omega)⟩
    exact ⟨hat.result, hat.failureResult, hat.returned, hstarted, rfl, ⟨_, hnext, rfl⟩, hat.lookup⟩
  · have hpending : frame.pending = [] := by
      rw [hat.pending, List.drop_eq_nil_of_le (by omega)]
      rfl
    simp only [if_true, hpending]
    refine ⟨trivial, fun h => absurd h hlt, fun hle => ⟨trivial, hat.result, ?_⟩⟩
    show frame.started = _
    rw [hat.started, List.take_of_length_le hle]

/-- The function that ran fails: the load fails, and the functions that wait are dropped. -/
theorem At.failed {k value : Nat} {frame : LoadFrame} {routine d : InitRoutine} (hat : At load k frame)
    (hk : load.routines[k]? = some routine) (hd : lastAt load.routines routine.address = some d)
    (hentry : d.isEntryPoint = true) (hvalue : value &&& 0xFF = 0) :
    (frame.continueGuestCallback value).returned = true ∧
      (frame.continueGuestCallback value).result = load.failureResult ∧
      (frame.continueGuestCallback value).started = (load.routines.take (k + 1)).map InitRoutine.address ∧
      ∀ {module}, (frame.continueGuestCallback value).states module = some .readyToRun →
        frame.states module = some .readyToRun := by
  obtain ⟨current, hcurrent, hfunction⟩ := hat.function
  have hsame : current = routine := Option.some.inj (hcurrent.symm.trans hk)
  have hget : frame.initializers.get? frame.function = some d := by
    rw [hat.lookup, hfunction, hsame, hd]
  have hfinish : frame.finishInitializer d value = (false, frame) := by
    unfold LoadFrame.finishInitializer
    rw [hentry, Bool.true_and, if_pos (by rw [hvalue]; rfl)]
  have hdropped : (frame.failLibraryInitializer d).pending = [] := by
    show frame.pending.filter (fun function => function ∉ frame.initializers.keys) = []
    rw [List.filter_eq_nil_iff, hat.pending]
    intro address haddress
    obtain ⟨waiting, hwaiting, rfl⟩ := List.mem_map.mp haddress
    obtain ⟨j, hj⟩ := List.mem_iff_getElem?.mp (List.mem_of_mem_drop hwaiting)
    obtain ⟨_, e, _, _, he⟩ := lastAt_index hj
    have hin : waiting.address ∈ frame.initializers.keys :=
      OrderedDict.mem_keys_of_get? ((hat.lookup _).trans he)
    simp [hin]
  unfold LoadFrame.continueGuestCallback
  simp only [hget, hfinish, Bool.false_eq_true, if_false, hdropped]
  exact ⟨trivial, hat.failureResult, hat.started, LoadFrame.failLibraryInitializer_states⟩

end LoadCall

namespace LoadCall

variable {load : LoadCall}

theorem fails_snoc {values : List Nat} {value i : Nat} :
    load.Fails (values ++ [value]) i ↔ load.Fails values i ∨
      i = values.length ∧ ∃ routine, load.routines[i]? = some routine ∧ routine.isEntryPoint = true ∧
        value &&& 0xFF = 0 := by
  constructor
  · rintro ⟨routine, returned, hroutine, hvalue, hentry, hzero⟩
    by_cases hlt : i < values.length
    · rw [List.getElem?_append_left hlt] at hvalue
      exact Or.inl ⟨routine, returned, hroutine, hvalue, hentry, hzero⟩
    · have hlen := (List.getElem?_eq_some_iff.mp hvalue).1
      rw [List.length_append, List.length_singleton] at hlen
      have hi : i = values.length := by omega
      rw [hi, List.getElem?_concat_length] at hvalue
      rw [← Option.some.inj hvalue] at hzero
      exact Or.inr ⟨hi, routine, hroutine, hentry, hzero⟩
  · intro h
    cases h with
    | inl hfails =>
      obtain ⟨routine, returned, hroutine, hvalue, hentry, hzero⟩ := hfails
      have hlt := (List.getElem?_eq_some_iff.mp hvalue).1
      exact ⟨routine, returned, hroutine, by rw [List.getElem?_append_left hlt, hvalue], hentry, hzero⟩
    | inr hlast =>
      obtain ⟨hi, routine, hroutine, hentry, hzero⟩ := hlast
      exact ⟨routine, value, hroutine, by rw [hi, List.getElem?_concat_length], hentry, hzero⟩

/-- The ready modules of the load are those whose last routine is one of the first routines. -/
def ReadyBy (load : LoadCall) (k : Nat) (states : LoadStates) : Prop :=
  ∀ {routine}, routine ∈ load.routines → states routine.module = some .readyToRun →
    ∃ j last, j < k ∧ load.routines[j]? = some last ∧ last.module = routine.module ∧ last.isLast = true

theorem ReadyBy.succeeds {k : Nat} {states : LoadStates} {routine d : InitRoutine} (h : ReadyBy load k states)
    (hk : load.routines[k]? = some routine) (hd : d = routine ∨ d.isLast = false) :
    ReadyBy load (k + 1) (statesAfter states d) := by
  intro r hr hready
  unfold statesAfter at hready
  split at hready
  next hlast =>
    cases hd with
    | inr hno => rw [hno] at hlast; cases hlast
    | inl heq =>
      by_cases hmodule : r.module = d.module
      · exact ⟨k, routine, by omega, hk, by rw [hmodule, heq], by rw [← heq]; exact hlast⟩
      · rw [Function.update_of_ne hmodule] at hready
        obtain ⟨j, last, hj, hrest⟩ := h hr hready
        exact ⟨j, last, by omega, hrest⟩
  next =>
    obtain ⟨j, last, hj, hrest⟩ := h hr hready
    exact ⟨j, last, by omega, hrest⟩

/-- Where a load is after some functions returned. -/
inductive Phase (load : LoadCall) (values : List Nat) (frame : LoadFrame) : Prop
  | running (hat : At load values.length frame) (hfails : ∀ i, ¬load.Fails values i)
      (hready : ReadyBy load values.length frame.states)
  | finished (hall : load.routines.length ≤ values.length) (hfails : ∀ i, ¬load.Fails values i)
      (hready : ReadyBy load load.routines.length frame.states) (hreturned : frame.returned = true)
      (hresult : frame.result = load.result) (hstarted : frame.started = load.routines.map InitRoutine.address)
  | failed (k : Nat) (hk : load.Fails values k) (hfails : ∀ i < k, ¬load.Fails values i)
      (hready : ReadyBy load k frame.states) (hreturned : frame.returned = true)
      (hresult : frame.result = load.failureResult)
      (hstarted : frame.started = (load.routines.take (k + 1)).map InitRoutine.address)

theorem frame_ready (load : LoadCall) : ReadyBy load 0 load.frame.states := by
  intro routine hroutine hready
  rw [load.frame_queued.states] at hready
  have hstate : load.emptyFrame.states routine.module = some .initializing := collectInitializers_state hroutine
  rw [hstate] at hready
  simp at hready

theorem fails_length {values : List Nat} {i : Nat} (h : load.Fails values i) :
    i < values.length ∧ i < load.routines.length := by
  obtain ⟨_, _, hroutine, hvalue, _⟩ := h
  exact ⟨(List.getElem?_eq_some_iff.mp hvalue).1, (List.getElem?_eq_some_iff.mp hroutine).1⟩

theorem run_nil_phase (load : LoadCall) : Phase load [] (load.run []) := by
  have hnone : ∀ i, ¬load.Fails [] i := fun i h => Nat.not_lt_zero i (fails_length h).1
  by_cases hroutines : load.routines = []
  · have hqueued := load.frame_queued
    have hlen : load.routines.length = 0 := by rw [hroutines]; rfl
    have hreturned : load.frame.returned = true := by
      rw [hqueued.returned]
      show load.routines.isEmpty = true
      rw [hroutines]
      rfl
    refine Phase.finished (by rw [hlen]; exact Nat.zero_le _) hnone ?_ hreturned hqueued.result ?_
    · rw [hlen]
      exact load.frame_ready
    · show load.frame.started = _
      rw [hqueued.started, hroutines]
      rfl
  · exact Phase.running (frame_at hroutines) hnone load.frame_ready

theorem run_phase (hunshared : load.Unshared) (values : List Nat) : Phase load values (load.run values) := by
  induction values using List.reverseRecOn with
  | nil => exact load.run_nil_phase
  | append_singleton values value ih =>
    unfold run at ih ⊢
    rw [LoadFrame.run_snoc]
    cases ih with
    | finished hall hfails hready hreturned hresult hstarted =>
      rw [if_pos hreturned]
      refine Phase.finished (by rw [List.length_append]; omega) (fun i h => ?_) hready hreturned hresult hstarted
      cases fails_snoc.mp h with
      | inl hold => exact hfails i hold
      | inr hnew =>
        have hlt := (fails_length h).2
        omega
    | failed k hk hfails hready hreturned hresult hstarted =>
      rw [if_pos hreturned]
      refine Phase.failed k (fails_snoc.mpr (Or.inl hk)) (fun i hi h => ?_) hready hreturned hresult hstarted
      cases fails_snoc.mp h with
      | inl hold => exact hfails i hi hold
      | inr hnew =>
        have hlt := (fails_length hk).1
        omega
    | running hat hfails hready =>
      obtain ⟨routine, hroutine, _⟩ := hat.function
      obtain ⟨_, d, _, _, hd⟩ := lastAt_index hroutine
      have hmem := List.mem_of_getElem? hroutine
      have hsame := hunshared routine hmem d hd
      rw [if_neg (by rw [hat.returned]; exact Bool.false_ne_true)]
      by_cases hfail : d.isEntryPoint = true ∧ value &&& 0xFF = 0
      · have heq : d = routine := by
          cases hsame with
          | inl heq => exact heq
          | inr hno =>
            have hlast := collectInitializers_entry (lastAt_eq_some hd).1 hfail.1
            rw [hno.1] at hlast
            exact absurd hlast Bool.false_ne_true
        obtain ⟨hreturned, hresult, hstarted, hstates⟩ := hat.failed hroutine hd hfail.1 hfail.2
        refine Phase.failed values.length ?_ (fun i hi h => ?_) (fun hr h => hready hr (hstates h)) hreturned hresult
          hstarted
        · exact fails_snoc.mpr (Or.inr ⟨rfl, routine, hroutine, heq ▸ hfail.1, hfail.2⟩)
        · cases fails_snoc.mp h with
          | inl hold => exact hfails i hold
          | inr hnew => omega
      · have hnone : ∀ i, ¬load.Fails (values ++ [value]) i := by
          intro i h
          cases fails_snoc.mp h with
          | inl hold => exact hfails i hold
          | inr hnew =>
            obtain ⟨hi, r, hr, hentry, hzero⟩ := hnew
            have hrr : r = routine := Option.some.inj (by rw [← hr, ← hroutine, hi])
            cases hsame with
            | inl heq => exact hfail ⟨by rw [heq, ← hrr]; exact hentry, hzero⟩
            | inr hno =>
              rw [hrr, hno.2] at hentry
              exact Bool.false_ne_true hentry
        obtain ⟨hstates, hnext, hend⟩ := hat.succeeds hroutine hd hfail
        have hready' : ReadyBy load (values.length + 1) ((load.frame.run values).continueGuestCallback value).states := by
          rw [hstates]
          exact hready.succeeds hroutine (hsame.imp id fun hno => hno.1)
        by_cases hlt : values.length + 1 < load.routines.length
        · refine Phase.running ?_ hnone ?_
          · rw [List.length_append]
            exact hnext hlt
          · rw [List.length_append]
            exact hready'
        · have hle : load.routines.length ≤ values.length + 1 := by omega
          obtain ⟨hreturned, hresult, hstarted⟩ := hend hle
          have hlast : load.routines.length = values.length + 1 := by
            have hk := (List.getElem?_eq_some_iff.mp hroutine).1
            omega
          refine Phase.finished (by rw [List.length_append]; exact hle) hnone ?_ hreturned hresult hstarted
          rw [hlast]
          exact hready'

theorem initializersLaw_of_unshared (hunshared : load.Unshared) : load.InitializersLaw where
  ready := by
    intro values routine hroutine hready
    cases run_phase hunshared values with
    | running hat hfails hby =>
      obtain ⟨j, last, hj, hlast, hmodule, hflag⟩ := hby hroutine hready
      have hlt := (List.getElem?_eq_some_iff.mp hlast).1
      have hrun : j < (load.run values).started.length := by
        rw [hat.started, List.length_map, List.length_take]
        omega
      exact ⟨j, last, hlast, hmodule, hflag, hj, hrun, fun i _ => hfails i⟩
    | finished hall hfails hby hreturned hresult hstarted =>
      obtain ⟨j, last, hj, hlast, hmodule, hflag⟩ := hby hroutine hready
      have hrun : j < (load.run values).started.length := by
        rw [hstarted, List.length_map]
        exact hj
      exact ⟨j, last, hlast, hmodule, hflag, by omega, hrun, fun i _ => hfails i⟩
    | failed k hk hfails hby hreturned hresult hstarted =>
      obtain ⟨j, last, hj, hlast, hmodule, hflag⟩ := hby hroutine hready
      have hlen := fails_length hk
      have hrun : j < (load.run values).started.length := by
        rw [hstarted, List.length_map, List.length_take]
        omega
      exact ⟨j, last, hlast, hmodule, hflag, by omega, hrun, fun i hi => hfails i (by omega)⟩
  fails := by
    intro values
    cases run_phase hunshared values with
    | running hat hfails hby =>
      rw [hat.result]
      exact ⟨fun h => absurd h load.distinct, fun ⟨i, hi⟩ => absurd hi (hfails i)⟩
    | finished hall hfails hby hreturned hresult hstarted =>
      rw [hresult]
      exact ⟨fun h => absurd h load.distinct, fun ⟨i, hi⟩ => absurd hi (hfails i)⟩
    | failed k hk hfails hby hreturned hresult hstarted => exact ⟨fun _ => ⟨k, hk⟩, fun _ => hresult⟩
  order := by
    intro values
    cases run_phase hunshared values with
    | running hat hfails hby =>
      rw [hat.started]
      exact (List.take_prefix _ _).map _
    | finished hall hfails hby hreturned hresult hstarted =>
      have hall : load.routines.map InitRoutine.address <+: load.routines.map InitRoutine.address := List.prefix_rfl
      exact hstarted.symm ▸ hall
    | failed k hk hfails hby hreturned hresult hstarted =>
      rw [hstarted]
      exact (List.take_prefix _ _).map _
  stops := by
    intro values j hj
    cases run_phase hunshared values with
    | running hat hfails hby => exact absurd hj (hfails j)
    | finished hall hfails hby hreturned hresult hstarted => exact absurd hj (hfails j)
    | failed k hk hfails hby hreturned hresult hstarted =>
      have hle : k ≤ j := by
        by_contra hlt
        exact hfails j (by omega) hj
      rw [hstarted, List.length_map, List.length_take]
      omega

/-- Routines that return 1 never make the load fail. -/
theorem run_ones {k : Nat} (hk : k < load.routines.length) : At load k (load.run (List.replicate k 1)) := by
  induction k with
  | zero => exact frame_at (List.ne_nil_of_length_pos hk)
  | succ k ih =>
    have hat := ih (by omega)
    have hroutine : load.routines[k]? = some load.routines[k] := List.getElem?_eq_getElem (by omega)
    obtain ⟨_, d, _, _, hd⟩ := lastAt_index hroutine
    unfold run at hat ⊢
    rw [List.replicate_succ', LoadFrame.run_snoc, if_neg (by rw [hat.returned]; exact Bool.false_ne_true)]
    exact (hat.succeeds hroutine hd (by simp)).2.1 hk

theorem unshared_of_initializersLaw (hlaw : load.InitializersLaw) : load.Unshared := by
  intro routine hroutine d hd
  by_contra hshared
  obtain ⟨k, hk⟩ := List.mem_iff_getElem?.mp hroutine
  have hat := run_ones (List.getElem?_eq_some_iff.mp hk).1
  obtain ⟨m, e, hkm, hm, he⟩ := lastAt_index hk
  rw [hd] at he
  rw [← Option.some.inj he] at hm
  have hne : d ≠ routine := fun heq => hshared (Or.inl heq)
  by_cases hlast : d.isLast = true
  · -- The module of the other routine becomes ready when this one succeeds.
    have hstates := (@At.succeeds load k 1 _ routine d hat hk hd (by simp)).1
    have hready : (load.run (List.replicate k 1 ++ [1])).states d.module = some .readyToRun := by
      unfold run at hat hstates ⊢
      rw [LoadFrame.run_snoc, if_neg (by rw [hat.returned]; exact Bool.false_ne_true), hstates, statesAfter,
        if_pos hlast, Function.update_self]
    obtain ⟨j, last, hj, hmodule, hflag, hlen, _, _⟩ := hlaw.ready (lastAt_eq_some hd).1 hready
    have hjm := collectInitializers_last hj hm hflag hlast hmodule
    rw [List.length_append, List.length_replicate, List.length_singleton] at hlen
    have hmk : m = k := by omega
    rw [hmk, hk] at hm
    exact hne (Option.some.inj hm).symm
  · -- The `DllMain` returns 0, and what counts is a TLS callback.
    have hnolast : d.isLast = false := Bool.eq_false_iff.mpr hlast
    have hentry : routine.isEntryPoint = true := by
      by_contra hno
      exact hshared (Or.inr ⟨hnolast, Bool.eq_false_iff.mpr hno⟩)
    have hnoentry : ¬(d.isEntryPoint = true ∧ (0 : Nat) &&& 0xFF = 0) :=
      fun h => hlast (collectInitializers_entry (lastAt_eq_some hd).1 h.1)
    have hfails : load.Fails (List.replicate k 1 ++ [0]) k :=
      ⟨routine, 0, hk, by rw [List.getElem?_append_right (by simp)]; simp, hentry, rfl⟩
    have hresult := (hlaw.fails _).mpr ⟨k, hfails⟩
    have hok : (load.run (List.replicate k 1 ++ [0])).result = load.result := by
      have hsteps := At.succeeds hat hk hd hnoentry
      unfold run at hat hsteps ⊢
      rw [LoadFrame.run_snoc, if_neg (by rw [hat.returned]; exact Bool.false_ne_true)]
      by_cases hnext : k + 1 < load.routines.length
      · exact (hsteps.2.1 hnext).result
      · exact (hsteps.2.2 (by omega)).2.1
    exact load.distinct (hok.symm.trans hresult)

/-- The initializers of a load are accounted for exactly when no address stands for a routine that matters more. -/
theorem initializersLaw_iff (load : LoadCall) : load.InitializersLaw ↔ load.Unshared :=
  ⟨unshared_of_initializersLaw, initializersLaw_of_unshared⟩

/-- A DLL whose TLS callback is its entry point. -/
def entryCallbackLoad : LoadCall where
  dlls := [⟨0, 0x10000000, [0x10001000], 0x1000, true⟩]
  states := fun _ => none
  original := fun _ => false
  result := 0x10000000
  failureResult := 0
  distinct := by decide

/-- The TLS callback returns 0, and the load fails before `DllMain` runs. -/
theorem entryCallbackLoad_fails : ¬entryCallbackLoad.InitializersLaw := by
  intro hlaw
  have hresult : (entryCallbackLoad.run [0]).result = entryCallbackLoad.failureResult := rfl
  obtain ⟨j, hj⟩ := (hlaw.fails [0]).mp hresult
  obtain ⟨routine, value, hroutine, hvalue, hentry, _⟩ := hj
  have hlen := (List.getElem?_eq_some_iff.mp hvalue).1
  have hzero : j = 0 := by simpa using hlen
  rw [hzero] at hroutine
  have htls : routine = ⟨0, 0x10001000, false, false⟩ := (Option.some.inj hroutine).symm
  rw [htls] at hentry
  cases hentry

end LoadCall

end Speakeasy
