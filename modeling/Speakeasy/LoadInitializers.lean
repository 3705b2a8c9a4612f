import Speakeasy.OrderedDict
import Mathlib.Data.List.Induction

namespace Speakeasy

section

/-- A TLS callback or the DllMain of a module. The process is left out: a load is made by one process. -/
structure InitRoutine where
  module : Nat
  address : Nat
  isEntryPoint : Bool
  isLast : Bool
deriving DecidableEq

inductive LoadState
  | initializing
  | readyToRun
deriving DecidableEq

/-- A guest DLL: its base, its TLS callbacks and the RVA of its entry point, which is 0 without a DllMain. -/
structure GuestDll where
  id : Nat
  base : Nat
  tlsCallbacks : List Nat
  ep : Nat
  /-- The module is in the module list and in the PEB of the process. -/
  loaded : Bool

namespace GuestDll

variable (dll : GuestDll)

def functions : List (Nat × Bool) :=
  dll.tlsCallbacks.map (fun function => (function, false)) ++
    if dll.ep ≠ 0 then [(dll.base + dll.ep, true)] else []

def routines : List InitRoutine :=
  dll.functions.zipIdx.map fun (function, index) =>
    ⟨dll.id, function.1, function.2, index + 1 = dll.functions.length⟩

end GuestDll

abbrev LoadStates := Nat → Option LoadState

/-- `collect_initializers` -/
def collectInitializers (states : LoadStates) : List GuestDll → List InitRoutine × LoadStates
  | [] => ([], states)
  | dll :: dlls =>
    if !dll.loaded || (states dll.id).isSome then collectInitializers states dlls
    else
      let state := if dll.functions = [] then LoadState.readyToRun else .initializing
      let (routines, states) := collectInitializers (Function.update states dll.id (some state)) dlls
      (dll.routines ++ routines, states)

example : (collectInitializers (fun _ => none) [⟨1, 0x1000, [0x1010], 0x20, true⟩]).1 =
    [⟨1, 0x1010, false, false⟩, ⟨1, 0x1020, true, true⟩] := by
  rw [collectInitializers]
  rfl

/-- The frame of the load call, with the load states of the process. -/
structure LoadFrame where
  function : Nat
  pending : List Nat
  initializers : OrderedDict Nat InitRoutine
  result : Nat
  failureResult : Nat
  states : LoadStates
  /-- The modules that the process had in its PEB before the load. -/
  original : Nat → Bool
  /-- The functions that were started, the first one first. -/
  started : List Nat
  returned : Bool

namespace LoadFrame

/-- `setup_callback`: the first callback starts, and the others wait. -/
def setupCallback (frame : LoadFrame) (function : Nat) : LoadFrame :=
  if frame.started = [] then { frame with function := function, started := [function] }
  else { frame with pending := frame.pending ++ [function] }

/-- The loop at the end of `load_library`. -/
def queueInitializers (frame : LoadFrame) (routines : List InitRoutine) : LoadFrame :=
  routines.foldl (fun frame routine =>
    let frame := frame.setupCallback routine.address
    { frame with initializers := frame.initializers.insert routine.address routine }) frame

/-- `finish_initializer` of a routine that did not fault. -/
def finishInitializer (frame : LoadFrame) (routine : InitRoutine) (returnValue : Nat) : Bool × LoadFrame :=
  if routine.isEntryPoint && returnValue &&& 0xFF = 0 then (false, frame)
  else if routine.isLast then
    (true, { frame with states := Function.update frame.states routine.module (some .readyToRun) })
  else (true, frame)

/-- `rollback_guest_load`, for the load states and the callbacks that wait. -/
def rollbackGuestLoad (frame : LoadFrame) : LoadFrame :=
  let states := (frame.initializers.entries.map Prod.snd).foldl (fun (states : LoadStates) routine =>
    if states routine.module = some .initializing ∨ frame.original routine.module = false then
      Function.update states routine.module none
    else states) frame.states
  { frame with
    states := states
    pending := frame.pending.filter fun function => function ∉ frame.initializers.keys
    initializers := OrderedDict.empty }

/-- `_fail_library_initializer` -/
def failLibraryInitializer (frame : LoadFrame) (routine : InitRoutine) : LoadFrame :=
  rollbackGuestLoad { frame with
    result := frame.failureResult
    states := Function.update frame.states routine.module none }

/-- `_continue_guest_callback`, after the running function returned a value. -/
def continueGuestCallback (frame : LoadFrame) (returnValue : Nat) : LoadFrame :=
  let frame :=
    match frame.initializers.get? frame.function with
    | none => frame
    | some routine =>
      let (succeeded, frame) := frame.finishInitializer routine returnValue
      if succeeded then frame else frame.failLibraryInitializer routine
  match frame.pending with
  | function :: pending =>
    { frame with function := function, pending := pending, started := frame.started ++ [function] }
  | [] => { frame with returned := true }

/-- The initializers return the values. -/
def run (frame : LoadFrame) (values : List Nat) : LoadFrame :=
  values.foldl (fun frame value => if frame.returned then frame else frame.continueGuestCallback value) frame

end LoadFrame

end

section

/-- The last routine of the list with an address. -/
def lastAt (routines : List InitRoutine) (address : Nat) : Option InitRoutine :=
  routines.reverse.find? fun routine => routine.address = address

theorem lastAt_snoc (routines : List InitRoutine) (routine : InitRoutine) (address : Nat) :
    lastAt (routines ++ [routine]) address =
      if routine.address = address then some routine else lastAt routines address := by
  unfold lastAt
  rw [List.reverse_append, List.reverse_singleton, List.singleton_append, List.find?_cons]
  by_cases h : routine.address = address
  · rw [if_pos h, decide_eq_true h]
  · rw [if_neg h, decide_eq_false h]

theorem lastAt_eq_some {routines : List InitRoutine} {address : Nat} {d : InitRoutine}
    (h : lastAt routines address = some d) : d ∈ routines ∧ d.address = address := by
  have hmem := List.mem_of_find?_eq_some h
  exact ⟨List.mem_reverse.mp hmem, by simpa using List.find?_some h⟩

/-- The last routine with an address does not stand before another one with it. -/
theorem lastAt_index {routines : List InitRoutine} {k : Nat} {routine : InitRoutine}
    (hk : routines[k]? = some routine) :
    ∃ m d, k ≤ m ∧ routines[m]? = some d ∧ lastAt routines routine.address = some d := by
  induction routines using List.reverseRecOn with
  | nil => simp at hk
  | append_singleton routines last ih =>
    rw [lastAt_snoc]
    by_cases hlast : last.address = routine.address
    · have hlt : k < (routines ++ [last]).length := (List.getElem?_eq_some_iff.mp hk).1
      rw [List.length_append, List.length_singleton] at hlt
      exact ⟨routines.length, last, by omega, List.getElem?_concat_length, if_pos hlast⟩
    · have hlt : k < routines.length := by
        by_contra hge
        have hlen : k < (routines ++ [last]).length := (List.getElem?_eq_some_iff.mp hk).1
        rw [List.length_append, List.length_singleton] at hlen
        have hend : k = routines.length := by omega
        rw [hend, List.getElem?_concat_length] at hk
        exact hlast (congrArg InitRoutine.address (Option.some.inj hk))
      rw [List.getElem?_append_left hlt] at hk
      obtain ⟨m, d, hle, hm, hd⟩ := ih hk
      have hmlt : m < routines.length := (List.getElem?_eq_some_iff.mp hm).1
      exact ⟨m, d, hle, by rw [List.getElem?_append_left hmlt, hm], by rw [if_neg hlast, hd]⟩

/-- A call of `LoadLibrary`: the guest DLLs that wait, the load states of the process, the modules of its PEB
before the call, and its results. -/
structure LoadCall where
  dlls : List GuestDll
  states : LoadStates
  original : Nat → Bool
  result : Nat
  failureResult : Nat
  distinct : result ≠ failureResult

namespace LoadCall

variable (load : LoadCall)

def routines : List InitRoutine := (collectInitializers load.states load.dlls).1

/-- The frame before the initializers are queued. A call without initializers returns at once. -/
def emptyFrame : LoadFrame where
  function := 0
  pending := []
  initializers := OrderedDict.empty
  result := load.result
  failureResult := load.failureResult
  states := (collectInitializers load.states load.dlls).2
  original := load.original
  started := []
  returned := load.routines.isEmpty

def frame : LoadFrame := load.emptyFrame.queueInitializers load.routines

def run (values : List Nat) : LoadFrame := load.frame.run values

/-- The value with this number is the one of a `DllMain` that fails. -/
def Fails (values : List Nat) (j : Nat) : Prop :=
  ∃ routine value, load.routines[j]? = some routine ∧ values[j]? = some value ∧
    routine.isEntryPoint = true ∧ value &&& 0xFF = 0

/-- The initializers of a load, for every list of values that they return. -/
structure InitializersLaw : Prop where
  /-- A module is ready only after its last routine ran and succeeded. -/
  ready : ∀ {values routine}, routine ∈ load.routines →
    (load.run values).states routine.module = some .readyToRun →
    ∃ j last, load.routines[j]? = some last ∧ last.module = routine.module ∧ last.isLast = true ∧
      j < values.length ∧ j < (load.run values).started.length ∧ ∀ i ≤ j, ¬load.Fails values i
  fails : ∀ values, (load.run values).result = load.failureResult ↔ ∃ j, load.Fails values j
  /-- The routines run in their order, and none runs after a failure. -/
  order : ∀ values, (load.run values).started <+: load.routines.map InitRoutine.address
  stops : ∀ {values j}, load.Fails values j → (load.run values).started.length ≤ j + 1

/-- The address of a routine stands for the routine itself, or for one that does not matter as much: neither is
the address of a last routine of a module, nor the routine a `DllMain`. -/
def Unshared : Prop :=
  ∀ routine ∈ load.routines, ∀ d, lastAt load.routines routine.address = some d →
    d = routine ∨ d.isLast = false ∧ routine.isEntryPoint = false

end LoadCall

/-! What `collect_initializers` gives. -/

theorem GuestDll.length_routines (dll : GuestDll) : dll.routines.length = dll.functions.length := by
  unfold routines
  rw [List.length_map, List.length_zipIdx]

theorem GuestDll.routines_getElem? {dll : GuestDll} {k : Nat} {routine : InitRoutine}
    (h : dll.routines[k]? = some routine) :
    routine.module = dll.id ∧ (routine.isLast = true ↔ k + 1 = dll.functions.length) ∧
      (routine.isEntryPoint = true → k + 1 = dll.functions.length) := by
  unfold routines at h
  rw [List.getElem?_map, List.getElem?_zipIdx] at h
  obtain ⟨⟨function, index⟩, hfunction, rfl⟩ := Option.map_eq_some_iff.mp h
  obtain ⟨f, hf, hpair⟩ := Option.map_eq_some_iff.mp hfunction
  obtain ⟨rfl, rfl⟩ := Prod.mk.inj hpair
  refine ⟨rfl, by simp, fun hentry => ?_⟩
  have hentry : f.2 = true := hentry
  have hlt : k < dll.functions.length := (List.getElem?_eq_some_iff.mp hf).1
  unfold functions at hf hlt ⊢
  by_cases hk : k < dll.tlsCallbacks.length
  · rw [List.getElem?_append_left (by rw [List.length_map]; exact hk), List.getElem?_map] at hf
    obtain ⟨callback, _, rfl⟩ := Option.map_eq_some_iff.mp hf
    simp at hentry
  · split at hlt
    next hep =>
      rw [if_pos hep]
      simp only [List.length_append, List.length_map, List.length_singleton] at hlt ⊢
      omega
    next hep =>
      simp only [List.length_append, List.length_map, List.length_nil] at hlt
      omega

theorem collectInitializers_module {states : LoadStates} {dlls : List GuestDll} {routine : InitRoutine}
    (h : routine ∈ (collectInitializers states dlls).1) : states routine.module = none := by
  induction dlls generalizing states with
  | nil => simp [collectInitializers] at h
  | cons dll dlls ih =>
    unfold collectInitializers at h
    split at h
    next => exact ih h
    next hwait =>
      simp only [Bool.or_eq_true, not_or, Bool.not_eq_true, Option.isSome_eq_false_iff,
        Option.isNone_iff_eq_none] at hwait
      cases List.mem_append.mp h with
      | inl hmem =>
        obtain ⟨k, hk⟩ := List.mem_iff_getElem?.mp hmem
        rw [(GuestDll.routines_getElem? hk).1]
        exact hwait.2
      | inr hmem =>
        have hstate := ih hmem
        by_cases hid : routine.module = dll.id
        · rw [hid, Function.update_self] at hstate
          simp at hstate
        · rwa [Function.update_of_ne hid] at hstate

/-- The `DllMain` of a module is its last routine. -/
theorem collectInitializers_entry {states : LoadStates} {dlls : List GuestDll} {routine : InitRoutine}
    (h : routine ∈ (collectInitializers states dlls).1) (hentry : routine.isEntryPoint = true) :
    routine.isLast = true := by
  induction dlls generalizing states with
  | nil => simp [collectInitializers] at h
  | cons dll dlls ih =>
    unfold collectInitializers at h
    split at h
    next => exact ih h
    next =>
      cases List.mem_append.mp h with
      | inr hmem => exact ih hmem
      | inl hmem =>
        obtain ⟨k, hk⟩ := List.mem_iff_getElem?.mp hmem
        have hroutine := GuestDll.routines_getElem? hk
        exact hroutine.2.1.mpr (hroutine.2.2 hentry)

/-- A module that has a state keeps it. -/
theorem collectInitializers_keeps {states : LoadStates} {dlls : List GuestDll} {module : Nat}
    (h : (states module).isSome = true) : (collectInitializers states dlls).2 module = states module := by
  induction dlls generalizing states with
  | nil => rfl
  | cons dll dlls ih =>
    unfold collectInitializers
    split
    next => exact ih h
    next hwait =>
      have hid : module ≠ dll.id := by
        intro hid
        rw [hid] at h
        simp [h] at hwait
      have hupdate : Function.update states dll.id (some
          (if dll.functions = [] then LoadState.readyToRun else .initializing)) module = states module :=
        Function.update_of_ne hid _ _
      show (collectInitializers _ dlls).2 module = _
      rw [ih (by rw [hupdate]; exact h), hupdate]

/-- A collected module that has routines is initializing. -/
theorem collectInitializers_state {states : LoadStates} {dlls : List GuestDll} {routine : InitRoutine}
    (h : routine ∈ (collectInitializers states dlls).1) :
    (collectInitializers states dlls).2 routine.module = some .initializing := by
  induction dlls generalizing states with
  | nil => simp [collectInitializers] at h
  | cons dll dlls ih =>
    unfold collectInitializers at h ⊢
    split at h
    next hskip =>
      rw [if_pos hskip]
      exact ih h
    next hwait =>
      rw [if_neg hwait]
      cases List.mem_append.mp h with
      | inr hmem => exact ih hmem
      | inl hmem =>
        obtain ⟨k, hk⟩ := List.mem_iff_getElem?.mp hmem
        have hlt : k < dll.routines.length := (List.getElem?_eq_some_iff.mp hk).1
        rw [dll.length_routines] at hlt
        have hne : dll.functions ≠ [] := List.ne_nil_of_length_pos (by omega)
        rw [(GuestDll.routines_getElem? hk).1]
        show (collectInitializers _ dlls).2 dll.id = _
        rw [collectInitializers_keeps (by rw [Function.update_self]; rfl), Function.update_self, if_neg hne]

/-- A last routine is the one of the DLL, or one of the routines that follow. -/
theorem GuestDll.getElem?_routines_append (dll : GuestDll) {rest : List InitRoutine} {k : Nat} {last : InitRoutine}
    (hrest : ∀ routine ∈ rest, routine.module ≠ dll.id) (hk : (dll.routines ++ rest)[k]? = some last)
    (hlast : last.isLast = true) :
    (last.module = dll.id ∧ k + 1 = dll.routines.length) ∨
      (last.module ≠ dll.id ∧ dll.routines.length ≤ k ∧ rest[k - dll.routines.length]? = some last) := by
  by_cases hlt : k < dll.routines.length
  · rw [List.getElem?_append_left hlt] at hk
    have hroutine := routines_getElem? hk
    exact Or.inl ⟨hroutine.1, by rw [dll.length_routines]; exact hroutine.2.1.mp hlast⟩
  · rw [List.getElem?_append_right (by omega)] at hk
    exact Or.inr ⟨hrest last (List.mem_of_getElem? hk), by omega, hk⟩

/-- A module has one last routine at most. -/
theorem collectInitializers_last {states : LoadStates} {dlls : List GuestDll} {i j : Nat} {a b : InitRoutine}
    (hi : (collectInitializers states dlls).1[i]? = some a) (hj : (collectInitializers states dlls).1[j]? = some b)
    (ha : a.isLast = true) (hb : b.isLast = true) (hmodule : a.module = b.module) : i = j := by
  induction dlls generalizing states i j with
  | nil => simp [collectInitializers] at hi
  | cons dll dlls ih =>
    unfold collectInitializers at hi hj
    split at hi
    next hskip =>
      rw [if_pos hskip] at hj
      exact ih hi hj
    next hwait =>
      rw [if_neg hwait] at hj
      -- The modules of the other DLLs had no state after this one got its own.
      have hrest : ∀ routine ∈ (collectInitializers (Function.update states dll.id (some
          (if dll.functions = [] then LoadState.readyToRun else .initializing))) dlls).1,
          routine.module ≠ dll.id := by
        intro routine hroutine hid
        have hnone := collectInitializers_module hroutine
        rw [hid, Function.update_self] at hnone
        simp at hnone
      cases dll.getElem?_routines_append hrest hi ha with
      | inl hleft =>
        cases dll.getElem?_routines_append hrest hj hb with
        | inl hright => omega
        | inr hright => exact absurd (hmodule.symm.trans hleft.1) hright.1
      | inr hleft =>
        cases dll.getElem?_routines_append hrest hj hb with
        | inl hright => exact absurd (hmodule.trans hright.1) hleft.1
        | inr hright =>
          have heq := ih hleft.2.2 hright.2.2
          have hle := hleft.2.1
          have hle' := hright.2.1
          omega

end

end Speakeasy
