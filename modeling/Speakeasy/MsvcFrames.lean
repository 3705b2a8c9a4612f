import Speakeasy.ExceptionFlags

namespace Speakeasy

/-- A record of an MSVC scope table. A `__finally` has no filter. -/
structure MsvcScope where
  enclosing : Nat
  filter : Nat
  handler : Nat
deriving DecidableEq

/-- What a handler reads and writes in guest memory: the words of the frame, its scope table, the registration
records, each with the next one and its handler, and the head of their chain. A word that cannot be read is
`none`. -/
structure MsvcMemory where
  tryLevel : Nat
  exceptionPointers : Nat
  savedEsp : Nat
  exceptionList : Nat
  scope : Nat → Option MsvcScope
  registrationAt : Nat → Option (Nat × Nat)

inductive SehCall
  /-- A filter or a `__finally` block, with the ebp of its frame. -/
  | scope (function ebp : Nat)
  /-- The handler of a registration. -/
  | handler (function registration : Nat)
deriving DecidableEq

/-- The guest sees the memory at a call, and answers with a value and the memory that it leaves. -/
abbrev SehGenerator (Out : Type) := Generator (SehCall × MsvcMemory) (Nat × MsvcMemory) Out

inductive MsvcResult
  | disposition (d : Disposition) (memory : MsvcMemory)
  | resume (ebp esp eip : Nat) (memory : MsvcMemory)
  /-- A scope is not mapped. -/
  | raised

structure MsvcFrame where
  registration : Nat
  none : Nat

namespace MsvcFrame

variable (frame : MsvcFrame)

/-- The record is 16 bytes below ebp. -/
def ebp : Nat := frame.registration + 0x10

/-- `local_unwind`, for a number of turns. -/
def localUnwind (stop : Nat) : Nat → MsvcMemory → SehGenerator (Option MsvcMemory)
  | 0, memory => .ret (some memory)
  | n + 1, memory =>
    if memory.tryLevel = frame.none ∨ memory.tryLevel = stop then .ret (some memory)
    else
      match memory.scope memory.tryLevel with
      | .none => .ret .none
      | some scope =>
        let memory := { memory with tryLevel := scope.enclosing }
        if scope.filter = 0 then
          .yield (.scope scope.handler frame.ebp, memory) fun answer => localUnwind stop n answer.2
        else localUnwind stop n memory

/-- `unwind_registrations` from a registration, for a number of turns. -/
def unwindRegistrations : Nat → Nat → MsvcMemory → SehGenerator MsvcMemory
  | 0, _, memory => .ret memory
  | n + 1, registration, memory =>
    if registration = 0 ∨ registration = 0xFFFFFFFF then .ret memory
    else
      match memory.registrationAt registration with
      | .none => .ret memory
      | some (next, handler) =>
        if registration = frame.registration ∨ (frame.registration ≠ 0 ∧ frame.registration < registration) then
          .ret memory
        else
          .yield (.handler handler registration, memory) fun answer =>
            unwindRegistrations n next { answer.2 with exceptionList := next }

/-- The end of a search at a scope whose filter takes the exception. -/
def takeException (level : Nat) (scope : MsvcScope) (memory : MsvcMemory) : SehGenerator MsvcResult := do
  let memory ← frame.unwindRegistrations maxFrames memory.exceptionList memory
  let memory ← frame.localUnwind level maxFrames memory
  match memory with
  | .none => return .raised
  | some memory =>
    return .resume frame.ebp memory.savedEsp scope.handler { memory with tryLevel := scope.enclosing }

/-- The search from a level, for a number of turns. -/
def searchLevels : Nat → Nat → MsvcMemory → SehGenerator MsvcResult
  | 0, _, memory => .ret (.disposition .continueSearch memory)
  | n + 1, level, memory =>
    if level = frame.none then .ret (.disposition .continueSearch memory)
    else
      match memory.scope level with
      | .none => .ret .raised
      | some scope =>
        if scope.filter ≠ 0 then
          .yield (.scope scope.filter frame.ebp, memory) fun answer =>
            if asLong answer.1 < 0 then .ret (.disposition .continueExecution answer.2)
            else if 0 < asLong answer.1 then frame.takeException level scope answer.2
            else searchLevels n scope.enclosing answer.2
        else searchLevels n scope.enclosing memory

/-- `msvc_handler`, where `pointers` is the address of the exception pointers. -/
def msvcHandler (flags pointers : Nat) (memory : MsvcMemory) : SehGenerator MsvcResult :=
  if isUnwinding flags then do
    let memory ← frame.localUnwind frame.none maxFrames memory
    match memory with
    | .none => return .raised
    | some memory => return .disposition .continueSearch memory
  else frame.searchLevels maxFrames memory.tryLevel { memory with exceptionPointers := pointers }

/-! Whatever the guest does to its memory, every loop ends. -/

theorem localUnwind_returnsWithin (stop n : Nat) (memory : MsvcMemory) :
    (frame.localUnwind stop n memory).ReturnsWithin n := by
  induction n generalizing memory with
  | zero => exact Generator.returnsWithin_ret _ _
  | succ n ih =>
    unfold localUnwind
    split
    next => exact Generator.returnsWithin_ret _ _
    next =>
      split
      next => exact Generator.returnsWithin_ret _ _
      next scope hscope =>
        split
        next => exact Generator.returnsWithin_yield fun answer => ih answer.2
        next => exact (ih _).mono (Nat.le_succ n)

theorem unwindRegistrations_returnsWithin (n registration : Nat) (memory : MsvcMemory) :
    (frame.unwindRegistrations n registration memory).ReturnsWithin n := by
  induction n generalizing registration memory with
  | zero => exact Generator.returnsWithin_ret _ _
  | succ n ih =>
    unfold unwindRegistrations
    split
    next => exact Generator.returnsWithin_ret _ _
    next =>
      split
      next => exact Generator.returnsWithin_ret _ _
      next next handler hregistration =>
        split
        next => exact Generator.returnsWithin_ret _ _
        next => exact Generator.returnsWithin_yield fun answer => ih next _

theorem takeException_returnsWithin (level : Nat) (scope : MsvcScope) (memory : MsvcMemory) :
    (frame.takeException level scope memory).ReturnsWithin (maxFrames + maxFrames) := by
  apply (frame.unwindRegistrations_returnsWithin maxFrames memory.exceptionList memory).bind
  intro memory
  apply (frame.localUnwind_returnsWithin level maxFrames memory).bind (k := 0)
  intro memory
  cases memory with
  | none => exact Generator.returnsWithin_ret _ _
  | some memory => exact Generator.returnsWithin_ret _ _

/-- The loop of the search alone. It ends with a result, or at the scope whose filter takes the exception. -/
def searchFilters : Nat → Nat → MsvcMemory → SehGenerator (MsvcResult ⊕ Nat × MsvcScope × MsvcMemory)
  | 0, _, memory => .ret (.inl (.disposition .continueSearch memory))
  | n + 1, level, memory =>
    if level = frame.none then .ret (.inl (.disposition .continueSearch memory))
    else
      match memory.scope level with
      | .none => .ret (.inl .raised)
      | some scope =>
        if scope.filter ≠ 0 then
          .yield (.scope scope.filter frame.ebp, memory) fun answer =>
            if asLong answer.1 < 0 then .ret (.inl (.disposition .continueExecution answer.2))
            else if 0 < asLong answer.1 then .ret (.inr (level, scope, answer.2))
            else searchFilters n scope.enclosing answer.2
        else searchFilters n scope.enclosing memory

/-- What follows the loop. -/
def afterSearch : MsvcResult ⊕ Nat × MsvcScope × MsvcMemory → SehGenerator MsvcResult
  | .inl result => .ret result
  | .inr (level, scope, memory) => frame.takeException level scope memory

theorem searchLevels_eq (n level : Nat) (memory : MsvcMemory) :
    frame.searchLevels n level memory = frame.searchFilters n level memory >>= frame.afterSearch := by
  induction n generalizing level memory with
  | zero => rfl
  | succ n ih =>
    unfold searchLevels searchFilters
    split
    next => rfl
    next =>
      split
      next => rfl
      next scope hscope =>
        split
        next =>
          rw [Generator.yield_bind]
          congr 1
          funext answer
          split
          next => rfl
          next =>
            split
            next => rfl
            next => exact ih _ _
        next => exact ih _ _

theorem searchFilters_returnsWithin (n level : Nat) (memory : MsvcMemory) :
    (frame.searchFilters n level memory).ReturnsWithin n := by
  induction n generalizing level memory with
  | zero => exact Generator.returnsWithin_ret _ _
  | succ n ih =>
    unfold searchFilters
    split
    next => exact Generator.returnsWithin_ret _ _
    next =>
      split
      next => exact Generator.returnsWithin_ret _ _
      next scope hscope =>
        split
        next =>
          apply Generator.returnsWithin_yield
          intro answer
          split
          next => exact Generator.returnsWithin_ret _ _
          next =>
            split
            next => exact Generator.returnsWithin_ret _ _
            next => exact ih _ _
        next => exact (ih _ _).mono (Nat.le_succ _)

theorem searchLevels_returnsWithin (n level : Nat) (memory : MsvcMemory) :
    (frame.searchLevels n level memory).ReturnsWithin (n + (maxFrames + maxFrames)) := by
  rw [searchLevels_eq]
  apply (frame.searchFilters_returnsWithin n level memory).bind
  intro out
  obtain result | ⟨level, scope, memory⟩ := out
  · exact Generator.returnsWithin_ret _ _
  · exact frame.takeException_returnsWithin level scope memory

/-- The search, the registrations and the scopes have `MAX_FRAMES` turns each. -/
theorem msvcHandler_returnsWithin (flags pointers : Nat) (memory : MsvcMemory) :
    (frame.msvcHandler flags pointers memory).ReturnsWithin (maxFrames + (maxFrames + maxFrames)) := by
  unfold msvcHandler
  split
  next =>
    have hunwind := (frame.localUnwind_returnsWithin frame.none maxFrames memory).mono
      (Nat.le_add_right maxFrames (maxFrames + maxFrames))
    apply hunwind.bind (k := 0)
    intro memory
    cases memory with
    | none => exact Generator.returnsWithin_ret _ _
    | some memory => exact Generator.returnsWithin_ret _ _
  next => exact frame.searchLevels_returnsWithin maxFrames memory.tryLevel _

/-- Each loop of the handler makes at most `MAX_FRAMES` calls: the search, which is followed by the other two, the
unwind of the registrations and the unwind of the scopes. -/
structure LoopsEnd (memory : MsvcMemory) : Prop where
  search : ∀ level, (frame.searchFilters maxFrames level memory).ReturnsWithin maxFrames ∧
    frame.searchLevels maxFrames level memory = frame.searchFilters maxFrames level memory >>= frame.afterSearch
  registrations : ∀ registration, (frame.unwindRegistrations maxFrames registration memory).ReturnsWithin maxFrames
  scopes : ∀ stop, (frame.localUnwind stop maxFrames memory).ReturnsWithin maxFrames

theorem loopsEnd (memory : MsvcMemory) : frame.LoopsEnd memory where
  search level := ⟨frame.searchFilters_returnsWithin maxFrames level memory, frame.searchLevels_eq maxFrames level memory⟩
  registrations registration := frame.unwindRegistrations_returnsWithin maxFrames registration memory
  scopes stop := frame.localUnwind_returnsWithin stop maxFrames memory

end MsvcFrame

end Speakeasy
