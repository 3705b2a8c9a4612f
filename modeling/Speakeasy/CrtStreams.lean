import Mathlib.Data.List.Basic
import Speakeasy.ByteMemory
import Speakeasy.FileObjects
import Speakeasy.FoldRuns

namespace Speakeasy

section

/-- A call on a stream. Integer arguments are machine words, `memory` is the guest memory that the
call reads, and `text` is the C string of `fputs`. -/
inductive StreamCall
  | fread (buffer size count : Nat)
  | fwrite (buffer size count : Nat) (memory : ByteMemory)
  | fputc (c : Nat)
  | fputs (text : List UInt8)
  | fgets (str numChars : Nat)
  | fgetc
  | ungetc (c : Nat)
  | fseek (offset origin : Nat)
  | ftell
  | fclose

/-- The value of a call and the bytes that it puts into the buffer of its caller, or the
`OverflowError` of a number that is no `Py_ssize_t`. -/
inductive StreamResult
  | overflowError
  | value (value : Int) (stored : List UInt8)
deriving DecidableEq

/-- A stream of `fopen`: the file object of its handle, with its buffer, and whether `file_streams`
has the stream. -/
structure CrtStream where
  file : FileObject
  buf : BytesIO
  isOpen : Bool

namespace CrtStream

/-- `open_stream_file`. `existing` is the buffer of the file that the path names. -/
def openStreamFile (existing : Option BytesIO) (mode : List Char) : Option CrtStream :=
  let new : CrtStream := ⟨{ FileObject.init none with data := some 0 }, ⟨[], 0⟩, true⟩
  if 'w' ∈ mode then some new
  else
    let opened :=
      if 'a' ∈ mode ∧ existing = none then some new
      else existing.map fun buf => { new with buf := buf }
    opened.map fun s =>
      if 'a' ∈ mode then { s with file := { s.file with append := true } } else s

/-- The 32-bit offset of `fseek`. -/
def signedOffset (offset : Nat) : Int :=
  let offset := offset &&& 0xFFFFFFFF
  offset - ((offset &&& 0x80000000) <<< 1 : Nat)

variable (s : CrtStream)

/-- Where the offset of `seek_stream` starts. -/
def seekOrigin (origin : Nat) : Option Int :=
  if origin = 0 then some 0
  else if origin = 1 then some s.file.pos
  else if origin = 2 then some s.buf.size
  else none

def seekStream (offset : Int) (origin : Nat) : StreamResult × CrtStream :=
  if s.isOpen then
    match s.seekOrigin origin with
    | none => (.value (-1) [], s)
    | some start =>
      let pos := start + offset
      if pos < 0 then (.value (-1) [], s)
      else if 2 ^ 63 ≤ pos then (.overflowError, s)
      else
        let (_, file, buf) := s.file.seek s.buf pos 0
        (.value 0 [], { s with file := file, buf := buf })
  else (.value (-1) [], s)

def ftell : StreamResult × CrtStream :=
  if s.isOpen then (.value s.file.pos [], s) else (.value (-1) [], s)

def fread (buffer size count : Nat) : StreamResult × CrtStream :=
  if buffer = 0 ∨ size = 0 ∨ count = 0 ∨ ¬s.isOpen then (.value 0 [], s)
  else
    let total := size * count
    -- `BytesIO.read` refuses the size, but not at the end, where `get_data` does not read
    if 2 ^ 63 ≤ total ∧ s.file.pos ≠ s.buf.size then (.overflowError, s)
    else
      let (data, file, buf) := s.file.getData s.buf total false
      let s := { s with file := file, buf := buf }
      if data = [] then (.value 0 [], s) else (.value (data.length / size : Nat) data, s)

/-- `fgets` up to the first newline of its data. -/
def firstLine (data : List UInt8) : List UInt8 :=
  match data.idxOf? 10 with
  | none => data
  | some newline => data.take (newline + 1)

def fgets (str numChars : Nat) : StreamResult × CrtStream :=
  let numChars := numChars &&& 0xFFFFFFFF
  if str = 0 ∨ ¬(1 < numChars ∧ numChars < 0x80000000) ∨ ¬s.isOpen then (.value 0 [], s)
  else
    let pos := s.file.pos
    let (data, file, buf) := s.file.getData s.buf (numChars - 1 : Nat) false
    if data = [] then (.value 0 [], { s with file := file, buf := buf })
    else
      let data := firstLine data
      let (_, file, buf) := file.seek buf (pos + data.length : Nat) 0
      (.value str (data ++ [0]), { s with file := file, buf := buf })

def fgetc : StreamResult × CrtStream :=
  if s.isOpen then
    let (data, file, buf) := s.file.getData s.buf 1 false
    let s := { s with file := file, buf := buf }
    match data with
    | [] => (.value (-1) [], s)
    | b :: _ => (.value b.toNat [], s)
  else (.value (-1) [], s)

def ungetc (c : Nat) : StreamResult × CrtStream :=
  let c := c &&& 0xFFFFFFFF
  if c = 0xFFFFFFFF ∨ ¬s.isOpen then (.value (-1) [], s)
  else
    let pos := s.file.pos
    if pos = 0 then (.value (-1) [], s)
    else
      let (_, file, buf) := s.file.seek s.buf (pos - 1 : Nat) 0
      let (data, file, buf) := file.getData buf 1 false
      if data ≠ [UInt8.ofNat (c &&& 0xFF)] then (.value (-1) [], { s with file := file, buf := buf })
      else
        let (_, file, buf) := file.seek buf (pos - 1 : Nat) 0
        (.value (c &&& 0xFF : Nat) [], { s with file := file, buf := buf })

/-- `write_stream`: `write_file` with `at_end`. -/
def writeStream (data : List UInt8) : CrtStream :=
  if s.isOpen then
    let (file, buf) := s.file.addData s.buf data
    { s with file := file, buf := buf }
  else s

def fwrite (buffer size count : Nat) (memory : ByteMemory) : StreamResult × CrtStream :=
  if buffer = 0 ∨ size = 0 ∨ count = 0 then (.value 0 [], s)
  else (.value count [], s.writeStream (memory.readBytes buffer (size * count)))

def fputc (c : Nat) : StreamResult × CrtStream :=
  let c := c &&& 0xFF
  (.value c [], s.writeStream [UInt8.ofNat c])

def fputs (text : List UInt8) : StreamResult × CrtStream := (.value 0 [], s.writeStream text)

def fclose : StreamResult × CrtStream := (.value 0 [], { s with isOpen := false })

def step : StreamCall → StreamResult × CrtStream
  | .fread buffer size count => s.fread buffer size count
  | .fwrite buffer size count memory => s.fwrite buffer size count memory
  | .fputc c => s.fputc c
  | .fputs text => s.fputs text
  | .fgets str numChars => s.fgets str numChars
  | .fgetc => s.fgetc
  | .ungetc c => s.ungetc c
  | .fseek offset origin => s.seekStream (signedOffset offset) origin
  | .ftell => s.ftell
  | .fclose => s.fclose

end CrtStream

end

section

/-- The modes of a stream that reads, writes or appends, and of one that also does the other. -/
inductive StreamMode
  | r
  | rPlus
  | w
  | wPlus
  | a
  | aPlus

def StreamMode.text : StreamMode → List Char
  | .r => ['r']
  | .rPlus => ['r', '+']
  | .w => ['w']
  | .wPlus => ['w', '+']
  | .a => ['a']
  | .aPlus => ['a', '+']

/-- A stream as an array of bytes with one position. `lastRead` is the character that was read just
before, which can go back. -/
structure StreamModel where
  bytes : List UInt8
  pos : Nat
  append : Bool
  lastRead : Option UInt8
  isOpen : Bool

/-- The value of a machine word as an `int` of C. -/
def wordInt (n : Nat) : Int := (BitVec.ofNat 32 n).toInt

/-- The bytes up to the first newline, with the newline. -/
def lineOf : List UInt8 → List UInt8
  | [] => []
  | b :: bs => if b = 10 then [b] else b :: lineOf bs

namespace StreamModel

def start (existing : Option (List UInt8)) : StreamMode → Option StreamModel
  | .r | .rPlus => existing.map fun bytes => ⟨bytes, 0, false, none, true⟩
  | .w | .wPlus => some ⟨[], 0, false, none, true⟩
  | .a | .aPlus => some ⟨existing.getD [], 0, true, none, true⟩

variable (m : StreamModel)

/-- A write of C: the bytes go to the position, or to the end, and the position goes past them. -/
def writeC (data : List UInt8) : StreamModel :=
  if data = [] then m
  else
    let pos := if m.append then m.bytes.length else m.pos
    { m with bytes := writeAt m.bytes pos data, pos := pos + data.length, lastRead := none }

/-- A write that stores its bytes at the end and leaves the position. -/
def writeEnd (data : List UInt8) : StreamModel :=
  if data = [] then m else { m with bytes := m.bytes ++ data, lastRead := none }

def rest : List UInt8 := m.bytes.drop m.pos

/-- The position goes past some bytes that were there. -/
def pass (data : List UInt8) : StreamModel :=
  { m with pos := m.pos + data.length, lastRead := data.getLast?.or m.lastRead }

/-- Where a seek goes. -/
def target (offset origin : Nat) : Option Int :=
  match origin with
  | 0 => some (wordInt offset)
  | 1 => some (m.pos + wordInt offset)
  | 2 => some (m.bytes.length + wordInt offset)
  | _ => none

/-- A call on an open stream, with what a write does. -/
def step (write : StreamModel → List UInt8 → StreamModel) (m : StreamModel) :
    StreamCall → StreamResult × StreamModel
  | .fread buffer size count =>
    let data := if buffer = 0 then [] else m.rest.take (size * count)
    (.value (data.length / size : Nat) data, m.pass data)
  | .fwrite buffer size count memory =>
    if buffer = 0 ∨ size = 0 ∨ count = 0 then (.value 0 [], m)
    else (.value count [], write m (memory.readBytes buffer (size * count)))
  | .fputc c => (.value (c % 256 : Nat) [], write m [UInt8.ofNat c])
  | .fputs text => (.value 0 [], write m text)
  | .fgets str numChars =>
    -- there is room for one character less, and for none in a null buffer
    let room := if str = 0 then 0 else (wordInt numChars - 1).toNat
    let line := lineOf (m.rest.take room)
    if line = [] then (.value 0 [], m) else (.value str (line ++ [0]), m.pass line)
  | .fgetc =>
    match m.rest with
    | [] => (.value (-1) [], m)
    | b :: _ => (.value b.toNat [], m.pass [b])
  | .ungetc c => (.value (c % 256 : Nat) [], { m with pos := m.pos - 1, lastRead := none })
  | .fseek offset origin =>
    match m.target offset origin with
    | none => (.value (-1) [], m)
    | some target =>
      if target < 0 then (.value (-1) [], m)
      else (.value 0 [], { m with pos := target.toNat, lastRead := none })
  | .ftell => (.value m.pos [], m)
  | .fclose => (.value 0 [], { m with isOpen := false })

/-- A call that the model has an answer for: the stream is open, only the character that was read just
before goes back, and sizes and positions are no more than a file can have. -/
def Allows (op : StreamCall) : Prop :=
  m.isOpen ∧
    match op with
    | .fread _ size count => size * count < 2 ^ 63
    | .ungetc c => wordInt c ≠ -1 ∧ ∃ b, m.lastRead = some b ∧ c % 256 = b.toNat
    | .fseek offset origin => ∀ target, m.target offset origin = some target → target < 2 ^ 63
    | _ => True

end StreamModel

end

end Speakeasy
