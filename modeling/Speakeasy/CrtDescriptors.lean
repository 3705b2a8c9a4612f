import Speakeasy.ByteMemory
import Speakeasy.FileManager
import Speakeasy.HandleConsistency
import Speakeasy.PageProtection

namespace Speakeasy

section

def oCreat : Nat := 0x100
def oTrunc : Nat := 0x200
def oExcl : Nat := 0x400

/-- `upper` is `str.upper`, and `table` the handle table of the process. -/
structure CrtEnv where
  files : FileEnv
  upper : PyStr → PyStr
  table : Nat
  ptrSize : Nat

/-- The tables of the C runtime, and what it reads for them. Each open makes a file object, which `nextObject` numbers. -/
structure CrtState where
  files : FileManager
  handles : HandleState
  nextObject : Nat
  memory : ByteMemory
  iob : Option Nat
  fileStreams : AList fun _ : Nat => Nat
  crtStreams : List Nat
  fds : AList fun _ : Int => Nat

/-- `int.from_bytes(..., signed=True)` of four bytes. -/
def signedDword (value : Nat) : Int := if value < 2 ^ 31 then value else (value : Int) - 2 ^ 32

namespace CrtEnv

variable (env : CrtEnv)

/-- `get_file_layout` -/
def fileSize : Nat := if env.ptrSize = 8 then 0x30 else 0x20

def fileOffset : Nat := if env.ptrSize = 8 then 0x1C else 0x10

end CrtEnv

/-- The loop of `new_fd`. One turn for each descriptor is enough. -/
def newFdLoop (fds : AList fun _ : Int => Nat) : Nat → Int → Int
  | 0, fd => fd
  | fuel + 1, fd => if fd ∈ fds then newFdLoop fds fuel (fd + 1) else fd

def newFd (fds : AList fun _ : Int => Nat) : Int := newFdLoop fds fds.keys.length 3

namespace CrtState

variable (env : CrtEnv) (s : CrtState)

/-- `file_open`, with a handle of a new file object. -/
def fileOpen (path : PyStr) (create : Bool) : Except FileError (Option Nat × CrtState) :=
  match s.files.fileOpen env.files path create with
  | .error e => .error e
  | .ok (none, files) => .ok (none, { s with files := files })
  | .ok (some _, files) =>
    let (handles, handle) := s.handles.newHandle env.table s.nextObject
    .ok (some handle, { s with files := files, handles := handles, nextObject := s.nextObject + 1 })

def openStreamFile (path mode : PyStr) : Except FileError (Option Nat × CrtState) :=
  if 'w' ∈ mode then s.fileOpen env path true
  else if 'a' ∈ mode ∧ s.files.doesFileExist env.files path = false then s.fileOpen env path true
  else s.fileOpen env path false

/-- `new_stream`, for the address that `mem_alloc` returns. -/
def newStream (stream : Nat) (fd : Int) (hfile : Option Nat) : CrtState :=
  { s with
    memory := s.memory.writeBytes (stream + env.fileOffset) (toBytes 4 fd.toNat)
    crtStreams := stream :: s.crtStreams
    fileStreams := match hfile with
      | some hfile => s.fileStreams.insert stream hfile
      | none => s.fileStreams }

def inIob (stream : Nat) : Prop :=
  ∃ iob ∈ s.iob, iob ≤ stream ∧ stream - iob < 3 * env.fileSize ∧ (stream - iob) % env.fileSize = 0

instance (stream : Nat) : Decidable (s.inIob env stream) := by
  unfold inIob
  infer_instance

def getStreamFd (stream : Nat) : Option Int :=
  if ¬s.inIob env stream ∧ stream ∉ s.crtStreams then none
  else some (signedDword (s.memory.readInt (stream + env.fileOffset) 4))

/-- `file_get`: the file object of a handle. -/
def fileGet (handle : Nat) : Option Nat := s.handles.get env.table handle

def getFdFile (fd : Int) : Option Nat :=
  match s.fds.lookup fd with
  | some hfile => s.fileGet env hfile
  | none => none

def getStreamFile (stream : Nat) : Option Nat :=
  match s.fileStreams.lookup stream with
  | some hfile => s.fileGet env hfile
  | none => none

/-- `open_stream`, for the address that `mem_alloc` returns. -/
def openStream (path mode : PyStr) (stream : Nat) : Except FileError (Int × CrtState) := do
  let (hfile, s) ← s.openStreamFile env path mode
  match hfile with
  | none => return (0, s)
  | some hfile =>
    let fd := newFd s.fds
    let s := { s with fds := s.fds.insert fd hfile }
    return (stream, s.newStream env stream fd (some hfile))

/-- `fopen`, whose null arguments are `none`. -/
def fopen (filename mode : Option PyStr) (stream : Nat) : Except FileError (Int × CrtState) :=
  match filename, mode with
  | some path, some mode => s.openStream env path mode stream
  | _, _ => .ok (0, s)

/-- `open_fd` -/
def openFd (filename : Option PyStr) (oflag : Nat) : Except FileError (Int × CrtState) :=
  match filename with
  | none => .ok (-1, s)
  | some path => do
    let fileExists := s.files.doesFileExist env.files path
    if fileExists ∧ hasFlag oflag oCreat ∧ hasFlag oflag oExcl then return (-1, s)
    let (hfile, s) ← s.fileOpen env path (hasFlag oflag oCreat && (!fileExists || hasFlag oflag oTrunc))
    match hfile with
    | none => return (-1, s)
    | some hfile => return (newFd s.fds, { s with fds := s.fds.insert (newFd s.fds) hfile })

/-- `_close` -/
def close (fd : Int) : Int × CrtState :=
  if fd ∈ s.fds ∨ fd = 0 ∨ fd = 1 ∨ fd = 2 then (0, { s with fds := s.fds.erase fd }) else (-1, s)

/-- `_fdopen`, where `mode` says that the mode is no null pointer. -/
def fdopen (fd : Int) (mode : Bool) (stream : Nat) : Int × CrtState :=
  if ¬mode then (0, s)
  else if fd ∉ s.fds ∧ fd ≠ 0 ∧ fd ≠ 1 ∧ fd ≠ 2 then (0, s)
  else (stream, s.newStream env stream fd (s.fds.lookup fd))

def isConsole (path : PyStr) : Bool := env.upper path = "CONOUT$".toList || env.upper path = "CONIN$".toList

def reopenStream (path mode : PyStr) (stream : Nat) : Except FileError (Int × CrtState) :=
  if path = [] ∨ isConsole env path then .ok (stream, s)
  else do
    let fd := s.getStreamFd env stream
    let (hfile, s) ← s.openStreamFile env path mode
    match hfile with
    | none =>
      return (0, { s with
        fileStreams := s.fileStreams.erase stream
        fds := match fd with
          | some fd => s.fds.erase fd
          | none => s.fds })
    | some hfile =>
      return (stream, { s with
        fileStreams := s.fileStreams.insert stream hfile
        fds := match fd with
          | some fd => s.fds.insert fd hfile
          | none => s.fds })

def freopen (path mode : Option PyStr) (stream : Nat) : Except FileError (Int × CrtState) :=
  match mode with
  | none => .ok (0, s)
  | some mode => if stream = 0 then .ok (0, s) else s.reopenStream env (path.getD []) mode stream

def fclose (stream : Nat) : Int × CrtState :=
  if stream = 0 then (-1, s)
  else
    (0, { s with
      fds := match s.getStreamFd env stream with
        | some fd => s.fds.erase fd
        | none => s.fds
      fileStreams := s.fileStreams.erase stream
      crtStreams := s.crtStreams.filter (· ≠ stream) })

end CrtState

end

section

inductive CrtOp
  | fopen (filename mode : Option PyStr) (stream : Nat)
  | openFd (filename : Option PyStr) (oflag : Nat)
  | fdopen (fd : Int) (mode : Bool) (stream : Nat)
  | freopen (path mode : Option PyStr) (stream : Nat)
  | fclose (stream : Nat)
  | close (fd : Int)
deriving DecidableEq, Repr

namespace CrtState

variable (env : CrtEnv) (s : CrtState)

def step : CrtOp → Except FileError (Int × CrtState)
  | .fopen filename mode stream => s.fopen env filename mode stream
  | .openFd filename oflag => s.openFd env filename oflag
  | .fdopen fd mode stream => .ok (s.fdopen env fd mode stream)
  | .freopen path mode stream => s.freopen env path mode stream
  | .fclose stream => .ok (s.fclose env stream)
  | .close fd => .ok (s.close fd)

/-- What `mem_alloc` guarantees: no FILE that is in use has a byte of the new one. -/
def Fresh (stream : Nat) : Prop :=
  (∀ other ∈ s.crtStreams, stream + env.fileSize ≤ other ∨ other + env.fileSize ≤ stream) ∧
    ∀ iob ∈ s.iob, stream + env.fileSize ≤ iob ∨ iob + 3 * env.fileSize ≤ stream

/-- The stream has a file, and the descriptor in its FILE. -/
def Owns (fd : Int) (stream : Nat) : Prop :=
  s.fileStreams.lookup stream ≠ none ∧ s.getStreamFd env stream = some fd

/-- No other stream has the descriptor, and no other file when the stream has none. -/
def Alone (fd : Int) (stream : Nat) : Prop :=
  (∀ other, other ≠ stream → ¬s.Owns env fd other) ∧ (s.fileStreams.lookup stream = none → s.fds.lookup fd = none)

/-- The next handle fits 32 bits. -/
def Room : Prop := s.handles.allocator.allocateHandle.2.handle ≤ 0x100000000

/-- The operation gets a new FILE from `mem_alloc`, and does not close a descriptor that a stream owns. -/
def Allowed : CrtOp → Prop
  | .fopen _ _ stream => s.Fresh env stream
  | .fdopen _ _ stream => s.Fresh env stream
  | .close fd => ∀ stream, ¬s.Owns env fd stream
  | _ => True

/-- The operation acts on the descriptor of its stream alone. -/
def Clean : CrtOp → Prop
  | .fopen _ _ _ => s.Room ∧ newFd s.fds < 2 ^ 31
  | .openFd _ _ => s.Room
  | .fdopen fd _ _ => fd < 2 ^ 31
  | .freopen path mode stream => ∀ mode₁, mode = some mode₁ → stream ≠ 0 → path.getD [] ≠ [] →
    isConsole env (path.getD []) = false → ∀ hfile s', s.openStreamFile env (path.getD []) mode₁ = .ok (hfile, s') →
      match s.getStreamFd env stream with
      | some fd => s.Room ∧ s.Alone env fd stream
      | none => hfile = none
  | .fclose stream => stream ≠ 0 → ∀ fd, s.getStreamFd env stream = some fd → s.Alone env fd stream
  | .close _ => True

/-- Every descriptor and every stream but one stays as it is. -/
structure Frame (s' : CrtState) (fd : Option Int) (stream : Option Nat) : Prop where
  fds : ∀ k, some k ≠ fd → s'.fds.lookup k = s.fds.lookup k
  streams : ∀ other, some other ≠ stream → s'.fileStreams.lookup other = s.fileStreams.lookup other ∧
    s'.getStreamFd env other = s.getStreamFd env other

end CrtState

/-- The lowest descriptor above the standard ones that is not in use. -/
structure Lowest (fds : AList fun _ : Int => Nat) (fd : Int) : Prop where
  above : 3 ≤ fd
  free : fds.lookup fd = none
  lowest : ∀ k, 3 ≤ k → k < fd → fds.lookup k ≠ none

open CrtState

/-- The descriptors and the streams agree. -/
structure CrtLaw (env : CrtEnv) (s : CrtState) : Prop where
  descriptor : ∀ {fd h}, s.fds.lookup fd = some h → ∃ file, s.getFdFile env fd = some file
  standard : ∀ {fd h}, s.fds.lookup fd = some h → 3 ≤ fd ∨ (0 ≤ fd ∧
    ∃ stream, s.getStreamFd env stream = some fd ∧ s.fileStreams.lookup stream = some h)
  same : ∀ {stream h}, s.fileStreams.lookup stream = some h → ∃ fd file, s.getStreamFd env stream = some fd ∧
    s.fds.lookup fd = some h ∧ s.getStreamFile env stream = some file ∧ s.getFdFile env fd = some file

/-- What an operation does: the descriptor and the stream that it changes, and nothing else. -/
def CrtStepLaw (env : CrtEnv) (s : CrtState) (rv : Int) (s' : CrtState) : CrtOp → Prop
  | .fopen _ _ stream => (rv = 0 ∧ s.Frame env s' none none) ∨ (rv = stream ∧ ∃ fd h, Lowest s.fds fd ∧
    s'.getStreamFd env stream = some fd ∧ s'.fds.lookup fd = some h ∧ s'.fileStreams.lookup stream = some h ∧
    s.Frame env s' (some fd) (some stream))
  | .openFd _ _ => (rv = -1 ∧ s.Frame env s' none none) ∨ (Lowest s.fds rv ∧ (∃ h, s'.fds.lookup rv = some h) ∧
    s.Frame env s' (some rv) none)
  | .fdopen fd _ stream => (rv = 0 ∧ s.Frame env s' none none) ∨ (rv = stream ∧ s'.getStreamFd env stream = some fd ∧
    s'.fileStreams.lookup stream = s.fds.lookup fd ∧ s.Frame env s' none (some stream))
  | .freopen _ _ stream => s.Frame env s' none none ∨
    (s.getStreamFd env stream = none ∧ rv = 0 ∧ s'.fileStreams.lookup stream = none ∧ s.Frame env s' none (some stream)) ∨
    ∃ fd, s.getStreamFd env stream = some fd ∧ s'.getStreamFd env stream = some fd ∧
      s.fds.lookup fd = s.fileStreams.lookup stream ∧ s.Frame env s' (some fd) (some stream) ∧
      ((rv = 0 ∧ s'.fds.lookup fd = none ∧ s'.fileStreams.lookup stream = none) ∨
        (rv = stream ∧ ∃ h, s'.fds.lookup fd = some h ∧ s'.fileStreams.lookup stream = some h))
  | .fclose stream => (rv = -1 ∧ s' = s) ∨ (rv = 0 ∧ s'.fileStreams.lookup stream = none ∧
    match s.getStreamFd env stream with
    | some fd => s.fds.lookup fd = s.fileStreams.lookup stream ∧ s'.fds.lookup fd = none ∧
      s.Frame env s' (some fd) (some stream)
    | none => s.Frame env s' none (some stream))
  | .close fd => s'.fds.lookup fd = none ∧ s.Frame env s' (some fd) none

/-- The states that operations reach, when every one meets a condition. -/
inductive CrtRun (env : CrtEnv) (cond : CrtState → CrtOp → Prop) (s₀ : CrtState) : CrtState → Prop
  | init : CrtRun env cond s₀ s₀
  | step {s s' op rv} : CrtRun env cond s₀ s → s.Allowed env op → cond s op → s.step env op = .ok (rv, s') →
    CrtRun env cond s₀ s'

/-- A runtime that opened nothing yet, after any calls of the handle tables. -/
structure CrtStart (env : CrtEnv) (s : CrtState) : Prop where
  fds : s.fds = ∅
  fileStreams : s.fileStreams = ∅
  crtStreams : s.crtStreams = []
  iob : ∀ iob ∈ s.iob, ∀ i < 3, s.memory.readInt (iob + i * env.fileSize + env.fileOffset) 4 = i
  handles : ∃ base history, HandleState.Inv base s.handles history
  room : s.handles.allocator.handle ≤ 0x100000000

end

end Speakeasy
