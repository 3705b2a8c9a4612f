import Speakeasy.GdbCommands

namespace Speakeasy

/-- The entries of the command queue. The command `?` that `_interrupt` puts is apart from the packets
of the client. -/
inductive QueueItem
  | packet (payload : Packet)
  | interrupt
  | closed
deriving DecidableEq, Repr

/-- The calls of `command_loop`, by what follows when the client resumes there. -/
inductive StopSite
  | first
  | stop (fault : Option Nat)
  | exception
  | exit
deriving DecidableEq, Repr

/-- Where the emulator thread is, in `command_loop` or in `_execute_runs`. -/
inductive EmuThread
  /-- Before the locked section of `command_loop`. -/
  | clearing (site : StopSite)
  | loop (site : StopSite)
  /-- Before the locked section that sets `_running`. -/
  | resuming (site : StopSite) (action : ResumeAction)
  | resumed (site : StopSite) (action : ResumeAction)
  /-- Before `begin_run`. -/
  | ready (action : ResumeAction)
  | executing (action : ResumeAction)
  /-- Before `finish_run`. -/
  | finishing (action : ResumeAction)
  /-- Before the `finish_run` of the exception handler. -/
  | failing (address : Nat)
  | finished (action : ResumeAction) (reason : Option StopReason)
  /-- `command_loop` is called, and has not replied. -/
  | stopping (site : StopSite) (reason : StopReason)
  | closed
deriving DecidableEq, Repr

/-- The reader thread. `due` is the resume that a Ctrl-C is to end. -/
inductive ReaderThread
  | reading
  | interrupting (running : Bool) (due : Option Nat)
  | disconnecting
  | done
deriving DecidableEq, Repr

/-- The fields that both threads use, and a history of the packets: `taken` counts the packets of the
client that left the queue, `resume` is the number of the resume packet that has no stop reply, `replies`
has the number of the packet that each reply answers, and `owed` the resumes that a Ctrl-C is to end. -/
structure GdbServer where
  commands : List QueueItem
  running : Bool
  stopReason : StopReason
  stopPending : Bool
  libraryListChanged : Bool
  emulator : EmuThread
  reader : ReaderThread
  taken : Nat
  resume : Option Nat
  replies : List (Packet × Option Nat)
  owed : List Nat
deriving DecidableEq

inductive GdbEvent
  | packet (payload : Packet)
  /-- The locked section of `_interrupt`. -/
  | ctrlC
  /-- What `_interrupt` does after it. -/
  | interrupt
  | disconnect
  | disconnected
  | clear
  | take
  | setRunning
  | afterResume (exhausted more : Bool)
  | noRun
  | beginRun
  | endRun
  | raise (address : Nat)
  | finishRun
  | decide (fault : Option Nat) (complete runChanged : Bool)
  | stopReply
  | requestStop (reason : StopReason)
  | moduleChange
deriving DecidableEq, Repr

/-- The steps of the emulator thread, without those of its hooks. -/
def GdbEvent.isProgress : GdbEvent → Bool
  | .packet _ | .ctrlC | .interrupt | .disconnect | .disconnected => false
  | .requestStop _ | .moduleChange => false
  | _ => true

/-- The hooks run outside `command_loop`. -/
def EmuThread.runsHooks : EmuThread → Bool
  | .resumed .. | .ready _ | .executing _ | .finishing _ | .failing _ | .finished .. => true
  | _ => false

def hexDigits (n : Nat) : Packet := (Nat.toDigits 16 n).map fun c => UInt8.ofNat c.toNat

def hexByte (n : Nat) : Packet := if n < 0x10 then rsp "0" ++ hexDigits n else hexDigits n

def StopReason.isWatch (reason : StopReason) : Bool :=
  reason.kind = .watch || reason.kind = .rwatch || reason.kind = .awatch

def StopKind.name : StopKind → Packet
  | .swbreak => rsp "swbreak"
  | .hwbreak => rsp "hwbreak"
  | .watch => rsp "watch"
  | .rwatch => rsp "rwatch"
  | .awatch => rsp "awatch"
  | _ => []

/-- The reply of `_stop_reply`, which also clears the library flag. -/
def stopReplyText (reason : StopReason) (libraryListChanged : Bool) : Packet :=
  rsp "T" ++ hexByte reason.signal ++ rsp "thread:1;" ++
    (if reason.kind = .swbreak ∨ reason.kind = .hwbreak then reason.kind.name ++ rsp ":;"
    else
      match reason.address with
      | some address =>
        if reason.isWatch then reason.kind.name ++ rsp ":" ++ hexDigits address ++ rsp ";" else []
      | none => []) ++
    (if libraryListChanged then rsp "library:;" else [])

def gdbSigsegv : Nat := 11

namespace GdbServer

/-- `_request_stop`. Unicorn is stopped after the locked section. -/
def requestStop (s : GdbServer) (reason : StopReason) : GdbServer :=
  if !s.running || s.stopPending then s else { s with stopReason := reason, stopPending := true }

def sendReply (s : GdbServer) (payload : Packet) : GdbServer :=
  { s with replies := s.replies ++ [(payload, s.resume)], resume := none }

/-- A packet or the `?` of a Ctrl-C, and the number of the packet. -/
def command (t : Target) (s : GdbServer) (site : StopSite) (number : Option Nat) (payload : Packet) :
    GdbServer :=
  let (replies, action) := Gdb.answer t (stopReplyText s.stopReason s.libraryListChanged) payload
  let s := { s with
    replies := s.replies ++ replies.map fun reply => (reply, number)
    libraryListChanged := s.libraryListChanged && decide (payload ≠ rsp "?") }
  match action with
  | none => s
  | some action =>
    if action.detach || action.kill then { s with emulator := .closed }
    else { s with resume := number, emulator := .resuming site action }

def takeCommand (t : Target) (s : GdbServer) (site : StopSite) : Option GdbServer :=
  match s.commands with
  | [] => none
  | .closed :: rest => some { s with commands := rest, emulator := .closed }
  | .interrupt :: rest => some ({ s with commands := rest }.command t site none (rsp "?"))
  | .packet payload :: rest =>
    some ({ s with commands := rest, taken := s.taken + 1 }.command t site (some s.taken) payload)

/-- What `_execute_runs` does when `command_loop` gave a resume. `exhausted` is the total time limit and
`more` the answer of `on_run_complete`. -/
def afterResume (s : GdbServer) (site : StopSite) (action : ResumeAction) (exhausted more : Bool) :
    GdbServer :=
  let ready := { s with emulator := .ready action }
  let exits := fun payload => { s.sendReply payload with emulator := .closed }
  match site with
  | .first => ready
  | .stop fault =>
    if exhausted then exits (rsp "W00")
    else
      match fault with
      | none => ready
      | some signal => if more then ready else exits (rsp "X" ++ hexByte signal)
  | .exception => if more then ready else exits (rsp "X" ++ hexByte gdbSigsegv)
  | .exit => exits (rsp "W00")

def beginRun (s : GdbServer) (action : ResumeAction) : GdbServer :=
  if s.stopPending then { s with running := true, emulator := .finishing action }
  else { s with running := true, stopReason := {}, emulator := .executing action }

def finishRun (s : GdbServer) (action : ResumeAction) : GdbServer :=
  let reason : Option StopReason :=
    if s.stopPending then some s.stopReason
    else if action.step then some { kind := .step }
    else none
  { s with running := false, emulator := .finished action reason }

def exitReason : StopReason := { kind := .exit }

def faultReason (address : Nat) : StopReason := ⟨gdbSigsegv, .exception, some address⟩

/-- The end of an iteration of `_execute_runs`: a stop, the next run, or the last stop. -/
def decideStop (s : GdbServer) (action : ResumeAction) (reason : Option StopReason)
    (fault : Option Nat) (complete runChanged : Bool) : GdbServer :=
  -- A step that ends emulation gets the final stop instead.
  let reason := reason.filter fun reason => !(decide (reason.kind = .step) && complete)
  match (fault.map faultReason).or reason with
  | some reason => { s with emulator := .stopping (.stop (fault.map fun _ => gdbSigsegv)) reason }
  | none =>
    if runChanged && !complete then { s with emulator := .ready action }
    else { s with emulator := .stopping .exit exitReason }

/-- `command_loop` replies before its locked section. -/
def stopReply (s : GdbServer) (site : StopSite) (reason : StopReason) : GdbServer :=
  { s.sendReply (stopReplyText reason s.libraryListChanged) with
    stopReason := reason
    libraryListChanged := false
    emulator := .clearing site }

/-- The number of the first resume packet in the queue, when `number` packets were taken. -/
def queuedResume (t : Target) (number : Nat) : List QueueItem → Option Nat
  | [] => none
  | .closed :: _ => none
  | .interrupt :: rest => queuedResume t number rest
  | .packet payload :: rest =>
    match Gdb.answer t [] payload with
    | ([], _) => some number
    | _ => queuedResume t (number + 1) rest

/-- The resume that a Ctrl-C is to end: the one in progress, or else the first in the queue. -/
def dueResume (t : Target) (s : GdbServer) : Option Nat :=
  s.resume.or (queuedResume t s.taken s.commands)

def interruptReason : StopReason := { signal := 2, kind := .interrupt }

def interrupt (s : GdbServer) (running : Bool) (due : Option Nat) : GdbServer :=
  let s := { s with reader := .reading, owed := s.owed ++ due.toList }
  if running then s.requestStop interruptReason
  else { s with commands := s.commands ++ [.interrupt] }

def readerStep (t : Target) (s : GdbServer) : ReaderThread → GdbEvent → Option GdbServer
  | .reading, .packet payload => some { s with commands := s.commands ++ [.packet payload] }
  | .reading, .ctrlC => some { s with reader := .interrupting s.running (s.dueResume t) }
  | .reading, .disconnect =>
    some { s with commands := s.commands ++ [.closed], reader := .disconnecting }
  | .interrupting running due, .interrupt => some (s.interrupt running due)
  | .disconnecting, .disconnected => some ({ s with reader := .done }.requestStop interruptReason)
  | _, _ => none

def emulatorStep (t : Target) (s : GdbServer) : EmuThread → GdbEvent → Option GdbServer
  | .clearing site, .clear => some { s with running := false, stopPending := false, emulator := .loop site }
  | .loop site, .take => s.takeCommand t site
  | .resuming site action, .setRunning => some { s with running := true, emulator := .resumed site action }
  | .resumed site action, .afterResume exhausted more => some (s.afterResume site action exhausted more)
  | .resumed _ _, .raise address => some { s with emulator := .failing address }
  | .ready _, .noRun => some { s with emulator := .stopping .exit exitReason }
  | .ready action, .beginRun => some (s.beginRun action)
  | .executing action, .endRun => some { s with emulator := .finishing action }
  | .executing _, .raise address => some { s with emulator := .failing address }
  | .finishing action, .finishRun => some (s.finishRun action)
  | .failing address, .finishRun =>
    some { s with running := false, emulator := .stopping .exception (faultReason address) }
  | .finished action reason, .decide fault complete runChanged =>
    some (s.decideStop action reason fault complete runChanged)
  | .stopping site reason, .stopReply => some (s.stopReply site reason)
  | _, _ => none

def hookStep (s : GdbServer) : GdbEvent → Option GdbServer
  | .requestStop reason => if s.emulator.runsHooks then some (s.requestStop reason) else none
  | .moduleChange =>
    if s.emulator.runsHooks then
      some ({ s with libraryListChanged := true }.requestStop { kind := .library })
    else none
  | _ => none

/-- One locked section of a thread, with what it does up to its next one. -/
def step (t : Target) (s : GdbServer) (e : GdbEvent) : Option GdbServer :=
  (s.readerStep t s.reader e).or ((s.emulatorStep t s.emulator e).or (s.hookStep e))

def run (t : Target) : GdbServer → List GdbEvent → Option GdbServer
  | s, [] => some s
  | s, e :: events => (s.step t e).bind fun s => s.run t events

/-- The client is connected, and the emulator thread calls `command_loop` for the first time. -/
def initial : GdbServer where
  commands := []
  running := false
  stopReason := {}
  stopPending := false
  libraryListChanged := false
  emulator := .clearing .first
  reader := .reading
  taken := 0
  resume := none
  replies := []
  owed := []

end GdbServer

end Speakeasy
