import Mathlib.Data.List.Basic

namespace Speakeasy

abbrev Packet := List UInt8

def rsp (text : String) : Packet := text.toList.map fun c => UInt8.ofNat c.toNat

def rspEscape (data : Packet) : Packet :=
  data.flatMap fun value => if value ∈ rsp "$#\x7d*" then [0x7D, value ^^^ 0x20] else [value]

structure ResumeAction where
  step : Bool := false
  detach : Bool := false
  kill : Bool := false
deriving DecidableEq, Repr

inductive StopKind
  | none | step | interrupt | library | swbreak | hwbreak | watch | rwatch | awatch | exception | exit
  | unsupportedApi | timeout | maxInstructions | maxTotalTime
deriving DecidableEq, Repr

structure StopReason where
  signal : Nat := 5
  kind : StopKind := .none
  address : Option Nat := none
deriving DecidableEq, Repr

inductive PyError
  | value | index | unicodeDecode | other
deriving DecidableEq, Repr

/-- What the emulator answers to the commands that read or change it. -/
structure Target where
  readRegisters : Except PyError Packet
  writeRegisters : Packet → Except PyError Unit
  readRegister : Packet → Except PyError Packet
  writeRegister : Packet → Except PyError Unit
  readMemory : Packet → Except PyError Packet
  writeMemoryHex : Packet → Except PyError Unit
  writeMemoryBinary : Packet → Except PyError Unit
  changeBreakpoint : Packet → Except PyError Packet
  handleXfer : Packet → Except PyError (Option Packet)
  tebAddress : Except PyError Packet
  /-- `emu.set_pc(int(address, 16))`. -/
  setPc : Packet → Except PyError Unit

/-- The replies that a handler sent, and how it ended. -/
structure Handled where
  replies : List Packet
  result : Except PyError (Option ResumeAction)

namespace Handled

def reply (payload : Packet) : Handled := ⟨[payload], .ok none⟩

def resume (action : ResumeAction) : Handled := ⟨[], .ok (some action)⟩

/-- A `try` block that replies at its end, and replies `E01` to the exceptions it catches. -/
def tryReply (caught : PyError → Bool) : Except PyError Packet → Handled
  | .ok payload => reply payload
  | .error e => if caught e then reply (rsp "E01") else ⟨[], .error e⟩

end Handled

namespace Gdb

open Handled

def anyError (_ : PyError) : Bool := true

def readRegister (t : Target) (encodedIndex : Packet) : Handled :=
  tryReply (fun e => e = .value || e = .index) (t.readRegister encodedIndex)

def writeRegister (t : Target) (payload : Packet) : Handled :=
  tryReply (fun e => e = .value || e = .index || e = .unicodeDecode)
    ((t.writeRegister payload).map fun _ => rsp "OK")

/-- The binary reply to a `qXfer` packet that is supported. -/
def xferReply : Option Packet → Packet
  | some response => response.take 1 ++ rspEscape (response.drop 1)
  | none => []

def threadCommand (payload : Packet) : Handled :=
  if payload.length < 3 ∨ (payload.drop 1).take 1 ∉ [rsp "g", rsp "c"] then reply (rsp "E01")
  else reply (if payload.drop 2 ∈ [rsp "0", rsp "1", rsp "-1"] then rsp "OK" else rsp "E01")

def resumeCommand (actions : Packet) : Handled :=
  let actionList := actions.splitOn 0x3B
  let step := actionList.any fun item => item.take 1 ∈ [rsp "s", rsp "S"]
  if step || actionList.any fun item => item.take 1 ∈ [rsp "c", rsp "C"] then resume { step := step }
  else reply (rsp "E01")

/-- The address of a resume packet. `C` and `S` have a signal before it. -/
def resumeAddress (payload : Packet) : Packet :=
  if payload.take 1 ∈ [rsp "c", rsp "s"] then payload.drop 1
  else ((payload.drop 1).dropWhile (· ≠ 0x3B)).drop 1

def resumeAt (t : Target) (payload : Packet) : Handled :=
  let action : ResumeAction := { step := payload.take 1 ∈ [rsp "s", rsp "S"] }
  if resumeAddress payload = [] then resume action
  else
    match t.setPc (resumeAddress payload) with
    | .ok () => resume action
    | .error .value => reply (rsp "E01")
    | .error e => ⟨[], .error e⟩

def supported : Packet :=
  rsp ("PacketSize=10000;qXfer:features:read+;qXfer:libraries:read+;" ++
    "qXfer:exec-file:read+;qXfer:threads:read+;qXfer:memory-map:read+;" ++
    "QStartNoAckMode+;vContSupported+;swbreak+;hwbreak+")

/-- `_handle_command`. `stop` is the stop reply for the last stop reason. -/
def handleCommand (t : Target) (stop payload : Packet) : Handled :=
  if rsp "qSupported" <+: payload then reply supported
  else if payload = rsp "QStartNoAckMode" then reply (rsp "OK")
  else if payload = rsp "?" then reply stop
  else if payload = rsp "g" then tryReply anyError t.readRegisters
  else if rsp "G" <+: payload then
    tryReply anyError ((t.writeRegisters (payload.drop 1)).map fun _ => rsp "OK")
  else if rsp "p" <+: payload then readRegister t (payload.drop 1)
  else if rsp "P" <+: payload then writeRegister t (payload.drop 1)
  else if rsp "m" <+: payload then tryReply anyError (t.readMemory (payload.drop 1))
  else if rsp "M" <+: payload then
    tryReply anyError ((t.writeMemoryHex (payload.drop 1)).map fun _ => rsp "OK")
  else if rsp "X" <+: payload then
    tryReply anyError ((t.writeMemoryBinary (payload.drop 1)).map fun _ => rsp "OK")
  else if payload.take 1 ∈ [rsp "Z", rsp "z"] then tryReply anyError (t.changeBreakpoint payload)
  else if rsp "qXfer:" <+: payload then
    tryReply (fun _ => false) ((t.handleXfer payload).map xferReply)
  else if payload = rsp "qAttached" ∨ rsp "qAttached:" <+: payload then reply (rsp "1")
  else if payload = rsp "qC" then reply (rsp "QC1")
  else if payload = rsp "qfThreadInfo" then reply (rsp "m1")
  else if payload = rsp "qsThreadInfo" then reply (rsp "l")
  else if rsp "qGetTIBAddr:" <+: payload then tryReply (fun _ => false) t.tebAddress
  else if rsp "qSymbol" <+: payload then reply (rsp "OK")
  else if rsp "H" <+: payload then threadCommand payload
  else if rsp "T" <+: payload then
    reply (if payload.drop 1 ∈ [rsp "1", rsp "0", rsp "-1"] then rsp "OK" else rsp "E01")
  else if payload = rsp "vCont?" then reply (rsp "vCont;c;C;s;S")
  else if rsp "vCont;" <+: payload then resumeCommand (payload.drop 6)
  else if payload.take 1 ∈ [rsp "c", rsp "s", rsp "C", rsp "S"] then resumeAt t payload
  else if rsp "D" <+: payload then ⟨[rsp "OK"], .ok (some { detach := true })⟩
  else if payload = rsp "k" then ⟨[rsp "X09"], .ok (some { kill := true })⟩
  else if rsp "vKill" <+: payload then ⟨[rsp "OK"], .ok (some { kill := true })⟩
  else reply []

/-- A command in `command_loop`: an exception of the handler gives `E01`. -/
def answer (t : Target) (stop payload : Packet) : List Packet × Option ResumeAction :=
  let handled := handleCommand t stop payload
  match handled.result with
  | .ok action => (handled.replies, action)
  | .error _ => (handled.replies ++ [rsp "E01"], none)

section Dispatch

variable {n : Nat} {payload start text : Packet} (hstart : payload.take n = start)

include hstart

theorem not_command (h : ¬text.take n <+: start) : ¬text <+: payload := by
  rintro ⟨more, rfl⟩
  rw [List.take_append] at hstart
  exact h ⟨_, hstart⟩

theorem ne_command (h : ¬text.take n <+: start) : payload ≠ text := by
  intro heq
  exact not_command hstart h (heq ▸ List.prefix_refl _)

end Dispatch

end Gdb

end Speakeasy
