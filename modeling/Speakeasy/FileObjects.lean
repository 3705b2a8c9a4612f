import Mathlib.Data.List.Basic

namespace Speakeasy

section

/-- `Py_ssize_t`: the positions and the sizes that `io.BytesIO` takes. -/
def isSsize (n : Int) : Bool := -0x8000000000000000 ≤ n && n < 0x8000000000000000

/-- `io.BytesIO`. -/
structure BytesIO where
  bytes : List UInt8
  pos : Nat

/-- A read of `size` bytes from an offset. A negative size reads to the end. -/
def readAt (bytes : List UInt8) (pos : Nat) (size : Int) : List UInt8 :=
  if size < 0 then bytes.drop pos else (bytes.drop pos).take size.toNat

/-- A write at an offset. It fills a gap behind the end with zeros, but not for no data. -/
def writeAt (bytes : List UInt8) (pos : Nat) (data : List UInt8) : List UInt8 :=
  if data = [] then bytes
  else
    bytes.take pos ++ List.replicate (pos - bytes.length) 0 ++ data ++
      bytes.drop (pos + data.length)

/-- Where a seek goes. `none` is the `ValueError` of a negative offset from the start; any other seek
before the start goes to the start. -/
def seekTarget (size pos : Nat) (offset : Int) (whence : Nat) : Option Nat :=
  match whence with
  | 0 => if offset < 0 then none else some offset.toNat
  | 1 => some (pos + offset).toNat
  | 2 => some (size + offset).toNat
  | _ => some pos

namespace BytesIO

def size (b : BytesIO) : Nat := b.bytes.length

def seekTo (b : BytesIO) (pos : Nat) : BytesIO := { b with pos := pos }

def seekEnd (b : BytesIO) : BytesIO := b.seekTo b.size

def read (b : BytesIO) (size : Int) : List UInt8 × BytesIO :=
  let data := readAt b.bytes b.pos size
  (data, b.seekTo (b.pos + data.length))

def write (b : BytesIO) (data : List UInt8) : BytesIO :=
  ⟨writeAt b.bytes b.pos data, b.pos + data.length⟩

end BytesIO

inductive BytesError
  | valueError
  | overflowError
deriving DecidableEq

/-- A `File`. `data` and `origin` are positions of the buffer and of the file object in a heap, and
`config` is what `handle_file_data` gives, when the file has a configuration entry. -/
structure FileObject where
  data : Option Nat
  pos : Nat
  origin : Option Nat
  bytesWritten : Nat
  append : Bool
  config : Option (List UInt8)

namespace FileObject

/-- `File.__init__` without data. -/
def init (config : Option (List UInt8)) : FileObject := ⟨none, 0, none, 0, false, config⟩

variable (f : FileObject) (buf : BytesIO)

/-! The methods of a file, with its buffer, for positions and sizes that `io.BytesIO` takes. -/

def getData (size : Int) (resetPointer : Bool) : List UInt8 × FileObject × BytesIO :=
  let atEnd := f.pos = buf.size
  let buf := buf.seekEnd
  if atEnd ∧ ¬resetPointer then ([], f, buf)
  else
    let pos := if atEnd then 0 else f.pos
    let (data, buf) := (buf.seekTo pos).read size
    (data, { f with pos := buf.pos }, buf)

def seek (offset : Int) (whence : Nat) : Option Nat × FileObject × BytesIO :=
  let buf := buf.seekTo f.pos
  match seekTarget buf.size buf.pos offset whence with
  | none => (none, f, buf)
  | some pos => (some pos, { f with pos := pos }, buf.seekTo pos)

def addData (data : List UInt8) : FileObject × BytesIO :=
  ({ f with bytesWritten := f.bytesWritten + data.length }, buf.seekEnd.write data)

def writeData (data : List UInt8) : FileObject × BytesIO :=
  let pos := if f.append then buf.size else f.pos
  let buf := (buf.seekTo pos).write data
  ({ f with pos := buf.pos, bytesWritten := f.bytesWritten + data.length }, buf)

/-! The methods with the errors of `io.BytesIO`. A write of no data has no end. -/

/-- At the end, `get_data` does not read. -/
def tryGetData (size : Int) (resetPointer : Bool) : Except BytesError (List UInt8) × FileObject × BytesIO :=
  if isSsize size || (f.pos = buf.size && !resetPointer) then
    let (data, f, buf) := f.getData buf size resetPointer
    (.ok data, f, buf)
  else
    let pos := if f.pos = buf.size then 0 else f.pos
    (.error .overflowError, { f with pos := pos }, buf.seekTo pos)

def seekStart (whence : Nat) : Nat :=
  match whence with
  | 0 => 0
  | 1 => f.pos
  | _ => buf.size

def trySeek (offset : Int) (whence : Nat) : Except BytesError Nat × FileObject × BytesIO :=
  if isSsize offset && isSsize (f.seekStart buf whence + offset) then
    match f.seek buf offset whence with
    | (none, f, buf) => (.error .valueError, f, buf)
    | (some pos, f, buf) => (.ok pos, f, buf)
  else (.error .overflowError, f, buf.seekTo f.pos)

def tryAddData (data : List UInt8) : Except BytesError Unit × FileObject × BytesIO :=
  if data = [] || isSsize (buf.size + data.length : Nat) then (.ok (), f.addData buf data)
  else (.error .overflowError, f, buf.seekEnd)

def tryWriteData (data : List UInt8) : Except BytesError Unit × FileObject × BytesIO :=
  let pos := if f.append then buf.size else f.pos
  if data = [] || isSsize (pos + data.length : Nat) then (.ok (), f.writeData buf data)
  else (.error .overflowError, { f with pos := pos }, buf.seekTo pos)

end FileObject

/-- The file objects of a path and the buffers that they share. -/
structure FileHeap where
  buffers : List BytesIO
  files : List FileObject

namespace FileHeap

def setFile (s : FileHeap) (h : Nat) (f : FileObject) : FileHeap :=
  { s with files := s.files.set h f }

def setBuffer (s : FileHeap) (b : Nat) (buf : BytesIO) : FileHeap :=
  { s with buffers := s.buffers.set b buf }

/-- `get_buffer`: the buffer of a file, which it gets on the first use. -/
def getBuffer (s : FileHeap) (h : Nat) (f : FileObject) : Nat × FileHeap :=
  match f.data with
  | some b => (b, s)
  | none =>
    let b := s.buffers.length
    let s := { s with buffers := s.buffers ++ [ BytesIO.mk (f.config.getD []) 0] }
    (b, s.setFile h { f with data := some b })

/-- Run a method of a file on the file and its buffer. -/
def withBuffer {ρ : Type} (s : FileHeap) (h : Nat)
    (method : FileObject → BytesIO → ρ × FileObject × BytesIO) : Option (ρ × FileHeap) :=
  match s.files[h]? with
  | none => none
  | some f =>
    let (b, s) := s.getBuffer h f
    match s.buffers[b]? with
    | none => none
    | some buf =>
      let (result, f, buf) := method { f with data := some b } buf
      some (result, (s.setFile h f).setBuffer b buf)

/-- `if self.origin: self.origin.bytes_written += n`, which an error skips. -/
def countWritten (s : FileHeap) (h n : Nat) : FileHeap :=
  match (s.files[h]?).bind FileObject.origin with
  | none => s
  | some o =>
    match s.files[o]? with
    | none => s
    | some f => s.setFile o { f with bytesWritten := f.bytesWritten + n }

def getData (s : FileHeap) (h : Nat) (size : Int) (resetPointer : Bool) :
    Option (Except BytesError (List UInt8) × FileHeap) :=
  s.withBuffer h fun f buf => f.tryGetData buf size resetPointer

def getContents (s : FileHeap) (h : Nat) : Option (List UInt8 × FileHeap) :=
  s.withBuffer h fun f buf => (buf.bytes, f, buf)

/-- A seek with another `whence` than the three does nothing. -/
def seek (s : FileHeap) (h : Nat) (offset : Int) (whence : Nat) : Option (Except BytesError Nat × FileHeap) :=
  if 2 < whence then (s.files[h]?).map fun f => (.ok f.pos, s)
  else s.withBuffer h fun f buf => f.trySeek buf offset whence

/-- The end of `add_data` and of `write_data`. -/
def counted (h : Nat) (data : List UInt8) :
    Except BytesError Unit × FileHeap → Except BytesError Unit × FileHeap
  | (.error e, s) => (.error e, s)
  | (.ok (), s) => (.ok (), s.countWritten h data.length)

def addData (s : FileHeap) (h : Nat) (data : List UInt8) : Option (Except BytesError Unit × FileHeap) :=
  (s.withBuffer h fun f buf => f.tryAddData buf data).map (counted h data)

def writeData (s : FileHeap) (h : Nat) (data : List UInt8) : Option (Except BytesError Unit × FileHeap) :=
  (s.withBuffer h fun f buf => f.tryWriteData buf data).map (counted h data)

/-- `duplicate`: the new object shares the buffer. -/
def duplicate (s : FileHeap) (h : Nat) : Option FileHeap :=
  match s.files[h]? with
  | none => none
  | some f =>
    let (b, s) := s.getBuffer h f
    let new := { FileObject.init f.config with data := some b, origin := some (f.origin.getD h) }
    some { s with files := s.files ++ [new] }

/-- `f.append = append`, as the callers of `file_open` set it. -/
def setAppend (s : FileHeap) (h : Nat) (append : Bool) : Option FileHeap :=
  (s.files[h]?).map fun f => s.setFile h { f with append := append }

end FileHeap

end

/-- How a path begins: the configuration gives its data on the first open, or not at all, or the file
manager has a file with some data already. -/
inductive FileStart
  | config (data : Option (List UInt8))
  | existing (data : List UInt8)

/-- A call on a handle of a path, which is the position of its file object. -/
inductive FileCall
  | fileOpen
  | setAppend (h : Nat) (append : Bool)
  | getData (h : Nat) (size : Int) (resetPointer : Bool)
  | getContents (h : Nat)
  | seek (h : Nat) (offset : Int) (whence : Nat)
  | addData (h : Nat) (data : List UInt8)
  | writeData (h : Nat) (data : List UInt8)

/-- The handle that a call is on. -/
def FileCall.target : FileCall → Option Nat
  | .fileOpen => none
  | .setAppend h _ => some h
  | .getData h _ _ => some h
  | .getContents h => some h
  | .seek h _ _ => some h
  | .addData h _ => some h
  | .writeData h _ => some h

inductive FileResult
  | noHandle
  | handle (h : Nat)
  | data (data : List UInt8)
  | done
  | error (e : BytesError)
deriving DecidableEq

/-- A path that is open: its file objects, and what the configuration gives for it. -/
structure OpenPath where
  config : Option (List UInt8)
  heap : FileHeap

namespace OpenPath

def start : FileStart → OpenPath
  | .config data => ⟨data, ⟨[], []⟩⟩
  | .existing data =>
    let f := FileObject.init none
    ⟨none, if data = [] then ⟨[], [f]⟩ else ⟨[⟨data, 0⟩], [{ f with data := some 0 }]⟩⟩

/-- `file_open` without `create`: the first handle of a configuration entry has the file itself, the
later ones have duplicates of it. -/
def fileOpen (s : OpenPath) : FileResult × OpenPath :=
  match s.heap.duplicate 0 with
  | some heap => (.handle s.heap.files.length, { s with heap := heap })
  | none =>
    match s.config with
    | none => (.noHandle, s)
    | some data => (.handle 0, { s with heap := ⟨[], [FileObject.init (some data)]⟩ })

def step (s : OpenPath) (op : FileCall) : FileResult × OpenPath :=
  match op with
  | .fileOpen => s.fileOpen
  | .setAppend h append =>
    match s.heap.setAppend h append with
    | none => (.noHandle, s)
    | some heap => (.done, { s with heap := heap })
  | .getData h size reset =>
    match s.heap.getData h size reset with
    | none => (.noHandle, s)
    | some (.error e, heap) => (.error e, { s with heap := heap })
    | some (.ok data, heap) => (.data data, { s with heap := heap })
  | .getContents h =>
    match s.heap.getContents h with
    | none => (.noHandle, s)
    | some (data, heap) => (.data data, { s with heap := heap })
  | .seek h offset whence =>
    match s.heap.seek h offset whence with
    | none => (.noHandle, s)
    | some (.error e, heap) => (.error e, { s with heap := heap })
    | some (.ok _, heap) => (.done, { s with heap := heap })
  | .addData h data =>
    match s.heap.addData h data with
    | none => (.noHandle, s)
    | some (.error e, heap) => (.error e, { s with heap := heap })
    | some (.ok (), heap) => (.done, { s with heap := heap })
  | .writeData h data =>
    match s.heap.writeData h data with
    | none => (.noHandle, s)
    | some (.error e, heap) => (.error e, { s with heap := heap })
    | some (.ok (), heap) => (.done, { s with heap := heap })

end OpenPath

/-- One array of bytes with a cursor for each handle, whether the handle appends, and the number of
bytes that all of them wrote. -/
structure SharedFile where
  known : Bool
  bytes : List UInt8
  handles : List (Nat × Bool)
  written : Nat

namespace SharedFile

def start : FileStart → SharedFile
  | .config data => ⟨data.isSome, data.getD [], [], 0⟩
  | .existing data => ⟨true, data, [(0, false)], 0⟩

def setHandle (a : SharedFile) (h cursor : Nat) (append : Bool) : SharedFile :=
  { a with handles := a.handles.set h (cursor, append) }

/-- The array with data at a cursor. Zeros fill the gap between the end and the cursor. -/
def store (a : SharedFile) (cursor : Nat) (data : List UInt8) : SharedFile :=
  let reached := if data = [] then a.bytes else a.bytes ++ List.replicate (cursor - a.bytes.length) 0
  { a with
    bytes := reached.take cursor ++ data ++ reached.drop (cursor + data.length)
    written := a.written + data.length }

/-- A call on a handle with its cursor, where `fits` are the numbers that a position or a size can be. -/
def handleStep (fits : Int → Bool) (a : SharedFile) (cursor : Nat) (append : Bool) (op : FileCall) :
    FileResult × SharedFile :=
  match op with
  | .fileOpen => (.noHandle, a)
  | .setAppend h flag => (.done, a.setHandle h cursor flag)
  | .getData h size reset =>
    let start := if cursor = a.bytes.length ∧ reset then 0 else cursor
    let rest := a.bytes.drop start
    let data := if size < 0 then rest else rest.take size.toNat
    if cursor = a.bytes.length ∧ !reset then (.data [], a)
    else if fits size then (.data data, a.setHandle h (start + data.length) append)
    else (.error .overflowError, a.setHandle h start append)
  | .getContents _ => (.data a.bytes, a)
  | .seek h offset whence =>
    let start := if whence = 0 then 0 else if whence = 1 then cursor else a.bytes.length
    if 2 < whence then (.done, a)
    else if !fits offset || !fits (start + offset) then (.error .overflowError, a)
    else if whence = 0 ∧ offset < 0 then (.error .valueError, a)
    else (.done, a.setHandle h (start + offset).toNat append)
  | .addData _ data =>
    if data ≠ [] ∧ !fits (a.bytes.length + data.length : Nat) then (.error .overflowError, a)
    else (.done, a.store a.bytes.length data)
  | .writeData h data =>
    let cursor := if append then a.bytes.length else cursor
    if data ≠ [] ∧ !fits (cursor + data.length : Nat) then (.error .overflowError, a.setHandle h cursor append)
    else (.done, (a.setHandle h (cursor + data.length) append).store cursor data)

def fileOpen (a : SharedFile) : FileResult × SharedFile :=
  if a.known then (.handle a.handles.length, { a with handles := a.handles ++ [(0, false)] })
  else (.noHandle, a)

def step (fits : Int → Bool) (a : SharedFile) (op : FileCall) : FileResult × SharedFile :=
  match op.target with
  | none => a.fileOpen
  | some h =>
    match a.handles[h]? with
    | none => (.noHandle, a)
    | some (cursor, append) => a.handleStep fits cursor append op

end SharedFile

/-- The results of a run of calls, and the state after them. -/
def runResults {σ : Type} (step : σ → FileCall → FileResult × σ) (s : σ) :
    List FileCall → List FileResult × σ
  | [] => ([], s)
  | op :: ops =>
    let (result, s) := step s op
    let (results, s) := runResults step s ops
    (result :: results, s)

/-- The state after one more call. -/
theorem runResults_append {σ : Type} (step : σ → FileCall → FileResult × σ) (s : σ)
    (ops : List FileCall) (op : FileCall) :
    (runResults step s (ops ++ [op])).2 = (step (runResults step s ops).2 op).2 := by
  induction ops generalizing s with
  | nil => rfl
  | cons first ops ih => exact ih (step s first).2

end Speakeasy
