import Speakeasy.CodePageCalls
import Speakeasy.DeviceListRuns

namespace Speakeasy

open PageEngine

/-- A service of `EMULATED_SERVICES`. -/
structure Service where
  name : PyStr
  display : PyStr
  serviceType : UInt32
  state : UInt32
deriving DecidableEq, Repr

inductive EnumFault
  | mem (e : MemError)
  | overflow
deriving DecidableEq, Repr

/-- The pointer arguments of `EnumServicesStatus` and the size of its buffer. -/
structure EnumArgs where
  lpServices : Nat
  cbBufSize : Nat
  pcbBytesNeeded : Nat
  lpServicesReturned : Nat
  lpResumeHandle : Nat

structure EnumReply where
  rv : Nat
  lastError : Option Nat
deriving DecidableEq, Repr

namespace Service

def serviceActive : Nat := 1

def serviceInactive : Nat := 2

def serviceRunning : UInt32 := 4

def serviceStopped : UInt32 := 1

def serviceAcceptStop : Nat := 1

def ownProcess : UInt32 := 0x10

def shareProcess : UInt32 := 0x20

/-- `EMULATED_SERVICES` -/
def emulatedServices : List Service :=
  [⟨"Dhcp".toList, "DHCP Client".toList, shareProcess, serviceRunning⟩,
    ⟨"Dnscache".toList, "DNS Client".toList, shareProcess, serviceRunning⟩,
    ⟨"EventLog".toList, "Windows Event Log".toList, shareProcess, serviceRunning⟩,
    ⟨"LanmanServer".toList, "Server".toList, shareProcess, serviceRunning⟩,
    ⟨"LanmanWorkstation".toList, "Workstation".toList, shareProcess, serviceRunning⟩,
    ⟨"Schedule".toList, "Task Scheduler".toList, shareProcess, serviceRunning⟩,
    ⟨"Winmgmt".toList, "Windows Management Instrumentation".toList, shareProcess, serviceRunning⟩,
    ⟨"Fax".toList, "Fax".toList, ownProcess, serviceStopped⟩,
    ⟨"RemoteRegistry".toList, "Remote Registry".toList, shareProcess, serviceStopped⟩,
    ⟨"SNMPTRAP".toList, "SNMP Trap".toList, ownProcess, serviceStopped⟩,
    ⟨"TapiSrv".toList, "Telephony".toList, shareProcess, serviceStopped⟩,
    ⟨"WebClient".toList, "WebClient".toList, shareProcess, serviceStopped⟩,
    ⟨"seclogon".toList, "Secondary Logon".toList, shareProcess, serviceStopped⟩]

def errorMoreData : Nat := 234

variable (arch : Arch) (wide : Bool)

/-- A text with its NUL, in the character width of the call. -/
def encode (text : PyStr) : List UInt8 :=
  if wide then utf16le (text ++ ['\x00']) else CodePage.encodeAnsi ((text ++ ['\x00']).map Char.toNat)

/-- An entry has two pointers and seven dwords, up to a multiple of the pointer size. -/
def entrySize : Nat := (2 * arch.ptrSize + 28 + arch.ptrSize - 1) / arch.ptrSize * arch.ptrSize

def size (s : Service) : Nat := entrySize arch + (encode wide s.name).length + (encode wide s.display).length

/-- The services of a type and a state. -/
def matching (services : List Service) (dwServiceType dwServiceState : Nat) : List Service :=
  services.filter fun s => s.serviceType.toNat &&& dwServiceType ≠ 0 ∧
    dwServiceState &&& (if s.state = serviceRunning then serviceActive else serviceInactive) ≠ 0

/-- The loop that counts the services that fit; the first argument bounds its rounds. -/
def fitCount (limit : Nat) (sizes : List Nat) : Nat → Nat → Nat
  | 0, count => count
  | fuel + 1, count =>
    if count < sizes.length ∧ (sizes.take (count + 1)).sum ≤ limit then fitCount limit sizes fuel (count + 1)
    else count

def accepted (s : Service) : Nat := if s.state = serviceRunning then serviceAcceptStop else 0

def entryBytes (s : Service) (name display : Nat) : List UInt8 :=
  toBytes arch.ptrSize name ++ toBytes arch.ptrSize display ++
    [s.serviceType.toNat, s.state.toNat, s.accepted, 0, 0, 0, 0].flatMap (toBytes 4) ++
    List.replicate (entrySize arch - (2 * arch.ptrSize + 28)) 0

variable {ε : Type} [PageEngine ε]

def store (g : GuestMemory ε) (a : Nat) (data : List UInt8) : Except EnumFault (GuestMemory ε) :=
  (g.memWrite a data).mapError .mem

/-- A text is written before its address goes into the entry. -/
def writeText (g : GuestMemory ε) (strings : Nat) (text : PyStr) : Except EnumFault (GuestMemory ε × Nat) := do
  let g ← store g strings (encode wide text)
  if 256 ^ arch.ptrSize ≤ strings then .error .overflow
  else .ok (g, strings + (encode wide text).length)

def writeServices (lpServices : Nat) : List Service → Nat → Nat → GuestMemory ε →
    Except EnumFault (GuestMemory ε)
  | [], _, _, g => .ok g
  | s :: services, index, strings, g => do
    let (g, display) ← writeText arch wide g strings s.name
    let (g, next) ← writeText arch wide g display s.display
    let g ← store g (lpServices + index * entrySize arch) (entryBytes arch s strings display)
    writeServices lpServices services (index + 1) next g

def writeOut (g : GuestMemory ε) (ptr value : Nat) : Except EnumFault (GuestMemory ε) :=
  if ptr ≠ 0 then store g ptr (toBytes 4 (value % 2 ^ 32)) else .ok g

def enumServicesStatus (services : List Service) (dwServiceType dwServiceState : Nat) (g : GuestMemory ε)
    (a : EnumArgs) : Except EnumFault (EnumReply × GuestMemory ε) := do
  let start ← if a.lpResumeHandle ≠ 0 then
      ((g.memRead a.lpResumeHandle 4).map fromBytes).mapError .mem
    else .ok 0
  let rest := (matching services dwServiceType dwServiceState).drop start
  let sizes := rest.map (size arch wide)
  let count := fitCount a.cbBufSize sizes sizes.length 0
  let g ← writeServices arch wide a.lpServices (rest.take count) 0
    (a.lpServices + count * entrySize arch) g
  let needed := (sizes.drop count).sum
  let g ← writeOut g a.pcbBytesNeeded needed
  let g ← writeOut g a.lpServicesReturned count
  let g ← writeOut g a.lpResumeHandle (if needed ≠ 0 then start + count else 0)
  .ok (if needed ≠ 0 then ⟨0, some errorMoreData⟩ else ⟨1, none⟩, g)

/-- The byte of a character in the ANSI code page, or a question mark for one that is not in it. -/
def IsAnsiByte (c b : Nat) : Prop := decodeAnsiChar b = c ∨ b = 0x3F ∧ ∀ x < 0x100, decodeAnsiChar x ≠ c

/-- A text with its NUL at an address: the units of UTF-16, or one byte of the code page for each character. -/
def NameAt (m : ByteMemory) (a : Nat) (text : PyStr) : Prop :=
  if wide then m.HoldsText a (text.map Char.toNat)
  else
    (∀ i c, text[i]? = some c → IsAnsiByte c.toNat (m.readInt (a + i) 1)) ∧ m.readInt (a + text.length) 1 = 0

/-- The bytes of a text with its NUL. -/
def nameSize (text : PyStr) : Nat :=
  if wide then ByteMemory.textSize (text.map Char.toNat) else text.length + 1

/-- An entry of a page: its fields, and its two texts in the buffer. -/
structure EntryHolds (m : ByteMemory) (a : EnumArgs) (index : Nat) (s : Service) : Prop where
  inside : (index + 1) * entrySize arch ≤ a.cbBufSize
  texts : ∃ name display,
    m.readInt (a.lpServices + index * entrySize arch) arch.ptrSize = name ∧
    m.readInt (a.lpServices + index * entrySize arch + arch.ptrSize) arch.ptrSize = display ∧
    NameAt wide m name s.name ∧ NameAt wide m display s.display ∧
    a.lpServices ≤ name ∧ name + nameSize wide s.name ≤ a.lpServices + a.cbBufSize ∧
    a.lpServices ≤ display ∧ display + nameSize wide s.display ≤ a.lpServices + a.cbBufSize
  status : m.Holds (a.lpServices + index * entrySize arch + 2 * arch.ptrSize)
    ([s.serviceType.toNat, s.state.toNat, s.accepted, 0, 0, 0, 0].flatMap (toBytes 4))

end Service

/-- What a program that enumerates the services has got: the resume handle, the services of the pages so
far, the bytes that the last call asked for, and whether it returned 1. -/
structure Paging where
  handle : Nat
  delivered : List Service
  needed : Option Nat
  finished : Bool
deriving DecidableEq, Repr

namespace Paging

open Service

def fresh : Paging := ⟨0, [], none, false⟩

variable {ε : Type} [PageEngine ε] (arch : Arch) (wide : Bool) (services : List Service)
  (dwServiceType dwServiceState : Nat)

/-- One call in some memory, and what the program reads back. -/
def step (t : Paging) (c : GuestMemory ε × EnumArgs) : Paging :=
  match enumServicesStatus arch wide services dwServiceType dwServiceState c.1 c.2 with
  | .error _ => t
  | .ok (reply, g) =>
    { handle := g.bytes.readInt c.2.lpResumeHandle 4
      delivered := t.delivered ++ ((matching services dwServiceType dwServiceState).drop t.handle).take
        (g.bytes.readInt c.2.lpServicesReturned 4)
      needed := some (g.bytes.readInt c.2.pcbBytesNeeded 4)
      finished := reply.rv = 1 }

/-- The addresses that a call may write: its buffer and its three dwords. -/
def Writable (a : EnumArgs) (x : Nat) : Prop :=
  (a.lpServices ≤ x ∧ x < a.lpServices + a.cbBufSize) ∨
  ∃ p ∈ [a.pcbBytesNeeded, a.lpServicesReturned, a.lpResumeHandle], p ≤ x ∧ x < p + 4

/-- The memory of a call. -/
structure CallMapped (g : GuestMemory ε) (a : EnumArgs) : Prop where
  buffer : g.RangeMapped a.lpServices a.cbBufSize
  inSpace : a.lpServices + a.cbBufSize ≤ 256 ^ arch.ptrSize
  outs : ∀ p ∈ [a.pcbBytesNeeded, a.lpServicesReturned, a.lpResumeHandle],
    p ≠ 0 ∧ g.RangeMapped p 4 ∧ (p + 4 ≤ a.lpServices ∨ a.lpServices + a.cbBufSize ≤ p)
  apart : [a.pcbBytesNeeded, a.lpServicesReturned, a.lpResumeHandle].Pairwise
    fun p q => p + 4 ≤ q ∨ q + 4 ≤ p

/-- A program calls again with the handle that it got, until a call returns 1. -/
structure Allowed (t : Paging) (c : GuestMemory ε × EnumArgs) : Prop where
  mapped : CallMapped arch c.1 c.2
  resumes : c.1.bytes.readInt c.2.lpResumeHandle 4 = t.handle
  going : t.finished = false

/-- The page of a call. -/
structure PageWritten (t : Paging) (c : GuestMemory ε × EnumArgs) (g : GuestMemory ε) : Prop where
  frame : ∀ x, ¬Writable c.2 x → g.bytes x = c.1.bytes x
  few : g.bytes.readInt c.2.lpServicesReturned 4 ≤
    ((matching services dwServiceType dwServiceState).drop t.handle).length
  entries : ∀ i s, i < g.bytes.readInt c.2.lpServicesReturned 4 →
    ((matching services dwServiceType dwServiceState).drop t.handle)[i]? = some s →
      EntryHolds arch wide g.bytes c.2 i s

/-- The law of one call of an enumeration. -/
structure PageLaw (t : Paging) (c : GuestMemory ε × EnumArgs) : Prop where
  page : ∃ reply g, enumServicesStatus arch wide services dwServiceType dwServiceState c.1 c.2 =
    .ok (reply, g) ∧ PageWritten arch wide services dwServiceType dwServiceState t c g
  order : (t.step arch wide services dwServiceType dwServiceState c).delivered <+:
    matching services dwServiceType dwServiceState
  complete : (t.step arch wide services dwServiceType dwServiceState c).finished = true →
    (t.step arch wide services dwServiceType dwServiceState c).delivered =
      matching services dwServiceType dwServiceState ∧
    (t.step arch wide services dwServiceType dwServiceState c).handle = 0
  rest : ∀ n, t.needed = some n → n ≤ c.2.cbBufSize →
    (t.step arch wide services dwServiceType dwServiceState c).finished = true

/-- The law of an enumeration that ends when the handle is 0. -/
def HandleLaw (t : Paging) (c : GuestMemory ε × EnumArgs) : Prop :=
  (t.step arch wide services dwServiceType dwServiceState c).handle = 0 →
    (t.step arch wide services dwServiceType dwServiceState c).delivered =
      matching services dwServiceType dwServiceState

end Paging

end Speakeasy
