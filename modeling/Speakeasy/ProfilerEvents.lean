import Mathlib.Data.List.Basic
import Mathlib.Algebra.BigOperators.Group.List.Basic
import Mathlib.Algebra.GroupWithZero.Nat
import Mathlib.Logic.Function.Basic

namespace Speakeasy

inductive ProcessEventType
  | processCreate
  | memAlloc
  | memProtect
  | memFree
  | memWrite
  | memRead
  | threadInject
  | threadCreate
deriving DecidableEq, Repr

/-- The process and the thread that do an operation. -/
structure TracePosition where
  pid : Nat
  tid : Nat
deriving DecidableEq, Repr

/-- A reference to an artifact is its bytes. -/
structure ProcessEvent where
  type : ProcessEventType
  pos : TracePosition
  path : List Char
  base : Nat
  size : Nat
  dataRef : Option (List UInt8)
  pid : Option Nat
deriving DecidableEq, Repr

/-- The process whose memory the event is about. -/
def ProcessEvent.target (e : ProcessEvent) : Nat := e.pid.getD e.pos.pid

/-- A call of `record_process_event` with the target process. -/
structure ProcessCall where
  run : Nat
  pos : TracePosition
  procId : Nat
  path : List Char
  type : ProcessEventType
  base : Nat
  size : Nat
  data : List UInt8
deriving DecidableEq, Repr

/-- `last_event` is the event at an index of the events of a run. -/
structure Profiler where
  events : Nat → List ProcessEvent
  lastData : Nat × Nat
  lastEvent : Option (Nat × Nat)

def artifactLimit : Nat := 1024

def putBinaryData (data : List UInt8) (limit : Nat) : Option (List UInt8) :=
  if data = [] then none else some (data.take limit)

def mergeBinaryData (artifactRef : Option (List UInt8)) (data : List UInt8) (limit : Nat) :
    Option (List UInt8) :=
  match artifactRef with
  | none => putBinaryData data limit
  | some bytes => if data = [] then some bytes else some ((bytes ++ data).take limit)

def ProcessCall.IsMemory (c : ProcessCall) : Prop := c.type = .memWrite ∨ c.type = .memRead

instance (c : ProcessCall) : Decidable c.IsMemory := inferInstanceAs (Decidable (_ ∨ _))

namespace Profiler

def initial : Profiler := ⟨fun _ => [], (0, 0), none⟩

/-- The event that a memory operation merges into, with its run and its index. -/
def mergeTarget (s : Profiler) (c : ProcessCall) : Option (Nat × Nat × ProcessEvent) :=
  if c.IsMemory ∧ s.lastData.1 + s.lastData.2 = c.base then
    s.lastEvent.bind fun x => ((s.events x.1)[x.2]?).bind fun e =>
      if e.type = c.type then some (x.1, x.2, e) else none
  else none

def append (s : Profiler) (c : ProcessCall) : Profiler :=
  let event : ProcessEvent :=
    { type := c.type
      pos := c.pos
      path := c.path
      base := c.base
      size := c.size
      dataRef := if c.IsMemory then putBinaryData c.data artifactLimit else none
      pid := if c.procId = c.pos.pid then none else some c.procId }
  { events := Function.update s.events c.run (s.events c.run ++ [event])
    lastData := if c.IsMemory then (c.base, c.size) else s.lastData
    lastEvent := some (c.run, (s.events c.run).length) }

def recordProcessEvent (s : Profiler) (c : ProcessCall) : Profiler :=
  match s.mergeTarget c with
  | some (run, i, e) =>
    { s with
      events := Function.update s.events run ((s.events run).set i
        { e with
          dataRef := mergeBinaryData e.dataRef c.data artifactLimit
          size := e.size + c.data.length })
      lastData := (c.base, c.size) }
  | none => s.append c

/-- The profiler after the calls. -/
def ofCalls (calls : List ProcessCall) : Profiler := calls.foldl recordProcessEvent initial

end Profiler

/-- The bytes from `base` on. -/
def CoveredBy (a : Nat) (base size : Nat) : Prop := base ≤ a ∧ a < base + size

/-- The sum of the sizes of the calls of a type for a run and a target process. -/
def recordedSize (calls : List ProcessCall) (type : ProcessEventType) (run target : Nat) : Nat :=
  (calls.map fun c => if c.type = type ∧ c.run = run ∧ c.procId = target then c.size else 0).sum

def Recorded (calls : List ProcessCall) (type : ProcessEventType) (run target a : Nat) : Prop :=
  ∃ c ∈ calls, c.type = type ∧ c.run = run ∧ c.procId = target ∧ CoveredBy a c.base c.size

def reportedSize (s : Profiler) (type : ProcessEventType) (run target : Nat) : Nat :=
  ((s.events run).map fun e => if e.type = type ∧ e.target = target then e.size else 0).sum

def Reported (s : Profiler) (type : ProcessEventType) (run target a : Nat) : Prop :=
  ∃ e ∈ s.events run, e.type = type ∧ e.target = target ∧ CoveredBy a e.base e.size

/-- The memory events of each run and target account for the operations of that run and target. -/
structure EventsComplete (s : Profiler) (calls : List ProcessCall) : Prop where
  size : ∀ type run target, type = .memWrite ∨ type = .memRead →
    reportedSize s type run target = recordedSize calls type run target
  covered : ∀ type run target a, type = .memWrite ∨ type = .memRead →
    (Reported s type run target a ↔ Recorded calls type run target a)

/-- A call that merges brings as many bytes as it says, and the event is of its run and target,
unless there are no bytes. -/
def MergesRight (s : Profiler) (c : ProcessCall) : Prop :=
  ∀ run i e, s.mergeTarget c = some (run, i, e) →
    c.data.length = c.size ∧ (c.size = 0 ∨ run = c.run ∧ e.target = c.procId)

end Speakeasy
