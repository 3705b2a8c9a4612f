import Speakeasy.ExceptionFlags

namespace Speakeasy

/-- A record of a C scope table. The handler is a filter or a `__finally` block, which has no jump target. -/
structure ScopeEntry where
  beginAddress : Nat
  endAddress : Nat
  handler : Nat
  target : Nat
deriving DecidableEq

def ScopeEntry.contains (entry : ScopeEntry) (pc : Int) : Prop := entry.beginAddress ≤ pc ∧ pc < entry.endAddress

instance ScopeEntry.decidableContains (entry : ScopeEntry) (pc : Int) : Decidable (entry.contains pc) :=
  inferInstanceAs (Decidable (_ ∧ _))

structure DispatcherContext where
  controlPc : Nat
  imageBase : Nat
  functionEntry : Nat
  establisherFrame : Nat
  targetIp : Nat
  contextRecord : Nat
  languageHandler : Nat
  handlerData : Nat
  scopeIndex : Nat

/-- A frame of `walk_frames`, with its function and what the unwind data gives. -/
structure WalkedFrame where
  rip : Nat
  imageBase : Nat
  functionEntry : Nat
  handler : Nat
  handlerData : Nat
  establisherFrame : Nat

/-- `_dispatcher_context` -/
def WalkedFrame.dispatcherContext (frame : WalkedFrame) (context targetIp : Nat) : DispatcherContext where
  controlPc := frame.rip
  imageBase := frame.imageBase
  functionEntry := frame.functionEntry
  establisherFrame := frame.establisherFrame
  targetIp := targetIp
  contextRecord := context
  languageHandler := frame.handler
  handlerData := frame.handlerData
  scopeIndex := 0

/-- The call of a filter or of a `__finally` block, and the scope index in the dispatcher context. -/
structure ScopeCall where
  function : Nat
  args : List Nat
  scopeIndex : Nat
deriving DecidableEq

/-- The end of `c_specific_handler`. An unwind goes on in `unwind_to`. -/
inductive ScopeResult
  | disposition (d : Disposition)
  | unwind (targetFrame targetIp returnValue : Nat)
deriving DecidableEq

namespace DispatcherContext

def pc (dc : DispatcherContext) : Int := dc.controlPc - dc.imageBase

def targetPc (dc : DispatcherContext) : Int := dc.targetIp - dc.imageBase

/-- The loop over the filters. -/
def searchScopes (dc : DispatcherContext) (establisher pointers code : Nat) :
    List ScopeEntry → Generator ScopeCall Nat ScopeResult
  | [] => .ret (.disposition .continueSearch)
  | entry :: entries =>
    if entry.contains dc.pc ∧ entry.target ≠ 0 then
      let unwind := ScopeResult.unwind establisher (dc.imageBase + entry.target) code
      -- EXCEPTION_EXECUTE_HANDLER in the place of a filter
      if entry.handler = 1 then .ret unwind
      else
        .yield ⟨dc.imageBase + entry.handler, [pointers, establisher], dc.scopeIndex⟩ fun answer =>
          if asLong answer < 0 then .ret (.disposition .continueExecution)
          else if 0 < asLong answer then .ret unwind
          else searchScopes dc establisher pointers code entries
    else searchScopes dc establisher pointers code entries

/-- The loop over the `__finally` blocks. It ends at a scope that also contains the target. -/
def unwindScopes (dc : DispatcherContext) (establisher flags : Nat) (scopes : List ScopeEntry) :
    Nat → List ScopeEntry → Generator ScopeCall Nat ScopeResult
  | _, [] => .ret (.disposition .continueSearch)
  | index, entry :: entries =>
    if ¬entry.contains dc.pc then unwindScopes dc establisher flags scopes (index + 1) entries
    else if flags &&& exceptionTargetUnwind ≠ 0 ∧ ∃ other ∈ scopes,
        other.contains dc.targetPc ∧ other.handler = entry.handler ∧ other.target = entry.target then
      .ret (.disposition .continueSearch)
    else if entry.target = 0 then
      .yield ⟨dc.imageBase + entry.handler, [1, establisher], index + 1⟩ fun _ =>
        unwindScopes dc establisher flags scopes (index + 1) entries
    else unwindScopes dc establisher flags scopes (index + 1) entries

/-- `c_specific_handler`, for the scope table at the handler data. -/
def cSpecificHandler (dc : DispatcherContext) (scopes : List ScopeEntry) (code flags establisher pointers : Nat) :
    Generator ScopeCall Nat ScopeResult :=
  if isUnwinding flags then
    dc.unwindScopes establisher flags scopes dc.scopeIndex (scopes.drop dc.scopeIndex)
  else dc.searchScopes establisher pointers code (scopes.drop dc.scopeIndex)

end DispatcherContext

/-- The call of a language handler. -/
structure LanguageCall where
  function : Nat
  flags : Nat
  establisher : Nat
  dispatcherContext : DispatcherContext

inductive UnwindResult
  /-- The target frame goes on at the address with the value in rax. -/
  | resume (frame : WalkedFrame) (rip rax : Nat)
  | invalidTarget (targetIp : Nat)

/-- Whereto an unwind goes, with the flags of its record. -/
structure UnwindPass where
  targetFrame : Nat
  targetIp : Nat
  flags : Nat
  returnValue : Nat
  unwound : Nat

namespace UnwindPass

variable (pass : UnwindPass)

def isTarget (frame : WalkedFrame) : Bool := frame.establisherFrame = pass.targetFrame

/-- The call that an unwind makes for a frame with a handler. -/
def handlerCall (frame : WalkedFrame) : LanguageCall where
  function := frame.handler
  flags :=
    if pass.isTarget frame then unwindFlags pass.flags pass.targetFrame ||| exceptionTargetUnwind
    else unwindFlags pass.flags pass.targetFrame
  establisher := frame.establisherFrame
  dispatcherContext := frame.dispatcherContext pass.unwound pass.targetIp

/-- `unwind_to`, for the frames of the walk. -/
def unwindTo : List WalkedFrame → Generator LanguageCall Nat UnwindResult
  | [] => .ret (.invalidTarget pass.targetIp)
  | frame :: frames =>
    let rest := if pass.isTarget frame then .ret (.resume frame pass.targetIp pass.returnValue) else unwindTo frames
    if frame.handler ≠ 0 then .yield (pass.handlerCall frame) fun _ => rest else rest

/-- Every frame with a handler gets a new dispatcher context. -/
theorem unwindTo_calls {frames : List WalkedFrame} {answers : List Nat} {call : LanguageCall}
    (h : call ∈ ((pass.unwindTo frames).run answers).1) : ∃ frame ∈ frames, call = pass.handlerCall frame := by
  induction frames generalizing answers with
  | nil => simp [unwindTo] at h
  | cons frame frames ih =>
    have hrest : ∀ answers, call ∈ ((if pass.isTarget frame
        then Generator.ret (.resume frame pass.targetIp pass.returnValue) else pass.unwindTo frames).run answers).1 →
        ∃ frame' ∈ frame :: frames, call = pass.handlerCall frame' := by
      intro answers hcall
      split at hcall
      next => simp at hcall
      next =>
        obtain ⟨frame', hframe, hcall⟩ := ih hcall
        exact ⟨frame', List.mem_cons_of_mem _ hframe, hcall⟩
    unfold unwindTo at h
    simp only at h
    by_cases hhandler : frame.handler ≠ 0
    · rw [if_pos hhandler] at h
      cases answers with
      | nil => exact ⟨frame, List.mem_cons_self, List.mem_singleton.mp h⟩
      | cons answer answers =>
        rw [Generator.run_yield_cons] at h
        cases List.mem_cons.mp h with
        | inl hcall => exact ⟨frame, List.mem_cons_self, hcall⟩
        | inr hcall => exact hrest answers hcall
    · rw [if_neg hhandler] at h
      exact hrest answers h

end UnwindPass

/-- The handler runs for the call, with the scope table of its frame. -/
def LanguageCall.run (call : LanguageCall) (scopes : List ScopeEntry) (code pointers : Nat) (answers : List Nat) :
    List ScopeCall × Option (ScopeResult × List Nat) :=
  (call.dispatcherContext.cSpecificHandler scopes code call.flags call.establisher pointers).run answers

end Speakeasy
