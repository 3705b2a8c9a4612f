import Speakeasy.Backtracking
import Speakeasy.GuestCallbacks
import Speakeasy.ByteMemory

namespace Speakeasy

section

/-- A width or a precision: `*`, or its digits. -/
inductive FormatField
  | star
  | digits (text : List Char)
deriving DecidableEq

inductive LengthPrefix
  | hh | h | ll | l | L | I64 | I32 | I | q | z | j | t | w
deriving DecidableEq

def LengthPrefix.text : LengthPrefix → List Char
  | .hh => ['h', 'h']
  | .h => ['h']
  | .ll => ['l', 'l']
  | .l => ['l']
  | .L => ['L']
  | .I64 => ['I', '6', '4']
  | .I32 => ['I', '3', '2']
  | .I => ['I']
  | .q => ['q']
  | .z => ['z']
  | .j => ['j']
  | .t => ['t']
  | .w => ['w']

structure FormatSpec where
  flags : List Char
  width : Option FormatField
  precision : Option FormatField
  length : Option LengthPrefix
  conv : Char
deriving DecidableEq

def isConv (c : Char) : Bool := c ∈ "diouxXeEfFgGaAcCsSpPnZ%".toList

def isFlag (c : Char) : Bool := c ∈ "-+ #0".toList

namespace FormatSpec

open Matcher

def lengthPrefixes : List LengthPrefix := [.hh, .h, .ll, .l, .L, .I64, .I32, .I, .q, .z, .j, .t, .w]

/-- `FORMAT_SPEC`, where a digit is a character with a decimal value. -/
def matcher (decimal : Char → Option Nat) : Matcher Char FormatSpec := do
  let isDigit := fun c => (decimal c).isSome
  let _ ← item (· = '%')
  let flags ← many isFlag
  let width ← optional (oneOf [literal ['*'] .star, FormatField.digits <$> many1 isDigit])
  let precision ← optional do
    let _ ← item (· = '.')
    oneOf [literal ['*'] .star, FormatField.digits <$> many isDigit]
  let length ← optional (oneOf (lengthPrefixes.map fun p => literal p.text p))
  let conv ← item isConv
  return ⟨flags, width, precision, length, conv⟩

theorem consumes_map {α β : Type} {n : Nat} {m : Matcher Char α} (f : α → β) (h : m.Consumes n) :
    (f <$> m).Consumes n :=
  h.bind fun a => consumes_pure (f a)

theorem consumes_matcher (decimal : Char → Option Nat) : (matcher decimal).Consumes 1 := by
  have hwidth : (oneOf [literal ['*'] .star, FormatField.digits <$> many1 fun c => (decimal c).isSome] :
      Matcher Char FormatField).Consumes 0 := by
    apply consumes_oneOf
    intro m hm
    simp only [List.mem_cons, List.not_mem_nil, or_false] at hm
    obtain rfl | rfl := hm
    · exact (consumes_literal _ _).mono (Nat.zero_le _)
    · exact (consumes_map _ (consumes_many1 _)).mono (Nat.zero_le _)
  have hfield : (oneOf [literal ['*'] .star, FormatField.digits <$> many fun c => (decimal c).isSome] :
      Matcher Char FormatField).Consumes 0 := by
    apply consumes_oneOf
    intro m hm
    simp only [List.mem_cons, List.not_mem_nil, or_false] at hm
    obtain rfl | rfl := hm
    · exact (consumes_literal _ _).mono (Nat.zero_le _)
    · exact consumes_map _ (consumes_many _)
  have hprecision := ((consumes_item (σ := Char) (· = '.')).bind fun _ => hfield).mono (Nat.zero_le _)
  have hlength : (oneOf (lengthPrefixes.map fun p => literal p.text p)).Consumes 0 := by
    apply consumes_oneOf
    intro m hm
    obtain ⟨p, _, rfl⟩ := List.mem_map.mp hm
    exact (consumes_literal _ _).mono (Nat.zero_le _)
  exact (consumes_item _).bind fun _ => (consumes_many _).bind fun _ => hwidth.optional.bind fun _ =>
    hprecision.optional.bind fun _ => hlength.optional.bind fun _ =>
      ((consumes_item _).bind fun _ => consumes_pure _).mono (Nat.zero_le _)

def pattern (decimal : Char → Option Nat) : Pattern Char FormatSpec := ⟨matcher decimal, consumes_matcher decimal⟩

/-- `INT_BITS` -/
def intBits : LengthPrefix → Option Nat
  | .hh => some 8
  | .h => some 16
  | .ll => some 64
  | .I64 => some 64
  | .q => some 64
  | .j => some 64
  | _ => none

/-- The bits of an integer, where some prefixes have the bits of a pointer. -/
def valueBits (length : Option LengthPrefix) (pointerBits : Nat) : Nat :=
  (length.bind intBits).getD
    (if length = some .I ∨ length = some .z ∨ length = some .t then pointerBits else 32)

def stars (spec : FormatSpec) : Nat := [spec.width, spec.precision].count (some .star)

/-- `get_format_slot_sizes` -/
def getFormatSlotSizes (spec : FormatSpec) (ptrSize : Nat) : List Nat :=
  let sizes := List.replicate spec.stars ptrSize
  if spec.conv ∈ "diouxX".toList then sizes ++ [max ptrSize (valueBits spec.length (ptrSize * 8) / 8)]
  else if spec.conv ∈ "eEfFgGaA".toList then sizes ++ [8]
  else if spec.conv ≠ '%' then sizes ++ [ptrSize]
  else sizes

end FormatSpec

/-- `get_va_arg_count`, for the conversions of a format. -/
def getVaArgCount (arch : Arch) (specs : List FormatSpec) : Nat :=
  ((specs.flatMap fun spec => spec.getFormatSlotSizes arch.ptrSize).map (· / arch.ptrSize)).sum

end

section

/-- A conversion of Python's `%`. -/
structure TextField where
  flags : List Char
  width : Nat
  precision : Option Nat

namespace TextField

variable (field : TextField)

/-- The padding stands between the prefix and the body when it is zeros. -/
def pad (zeros : Bool) (front body : List Char) : List Char :=
  let missing := field.width - (front.length + body.length)
  if '-' ∈ field.flags then front ++ body ++ List.replicate missing ' '
  else if zeros ∧ '0' ∈ field.flags then front ++ List.replicate missing '0' ++ body
  else List.replicate missing ' ' ++ front ++ body

def sign (value : Int) : List Char :=
  if value < 0 then ['-'] else if '+' ∈ field.flags then ['+'] else if ' ' ∈ field.flags then [' '] else []

/-- The conversions `d`, `o`, `x` and `X`. -/
def int (conv : Char) (value : Int) : List Char :=
  let base := if conv = 'd' then 10 else if conv = 'o' then 8 else 16
  let digits := Nat.toDigits base value.natAbs
  let digits := if conv = 'X' then digits.map Char.toUpper else digits
  let base := if '#' ∈ field.flags ∧ conv ≠ 'd' then ['0', conv] else []
  field.pad true (field.sign value ++ base)
    (List.replicate (field.precision.getD 0 - digits.length) '0' ++ digits)

def str (text : List Char) : List Char :=
  field.pad false [] (match field.precision with
    | some precision => text.take precision
    | none => text)

def char (text : List Char) : List Char := field.pad false [] text

end TextField

/-- What a format reads of the guest and of Python: its memory, where `none` is an address that is not mapped,
the code pages, the decimal value of a digit and the texts of a float. -/
structure FormatGuest where
  decimal : Char → Option Nat
  chr : Nat → Char
  decodeAnsi : List UInt8 → List Char
  decodeUtf16 : List UInt8 → List Char
  floatText : TextField → Char → Nat → List Char
  floatHex : Nat → List Char
  memRead : Nat → Nat → Option (List UInt8)
  readPtr : Nat → Option Nat
  readString : Nat → Option (List Char)
  readWideString : Nat → Option (List Char)

inductive FormatError
  | invalidRead
  /-- `struct.pack` with a value of more than 64 bits. -/
  | packError
  /-- `int` with more than 4300 digits. -/
  | valueError
deriving DecidableEq

/-- The text, and the argument slots that are left. -/
structure FormatState where
  out : List Char
  slots : List Nat

namespace FormatGuest

variable (guest : FormatGuest) (arch : Arch) (wide : Bool)

def maxFormatField : Nat := 0x10000

/-- `next_value`, with the number of slots. Missing slots read as 0. -/
def nextValue (arch : Arch) : Nat → Nat → List Nat → Nat × List Nat
  | 0, _, slots => (0, slots)
  | count + 1, i, slots =>
    let (value, rest) := nextValue arch count (i + 1) slots.tail
    (slots.headD 0 <<< (i * arch.ptrSize * 8) ||| value, rest)

def toSigned (value bits : Nat) : Int :=
  let value := value % 2 ^ bits
  if value / 2 ^ (bits - 1) = 1 then (value : Int) - 2 ^ bits else value

def digitsValue (text : List Char) : Nat :=
  text.foldl (fun value c => value * 10 + (guest.decimal c).getD 0) 0

/-- `min(int(text), MAX_FORMAT_FIELD)` -/
def fieldNumber (text : List Char) : Except FormatError Nat :=
  if 4300 < text.length then .error .valueError else .ok (min (guest.digitsValue text) maxFormatField)

/-- The flags and the width. A negative width is a flag. -/
def takeWidth (spec : FormatSpec) (sizes slots : List Nat) :
    List Char × Except FormatError Nat × List Nat × List Nat :=
  match spec.width with
  | some .star =>
    let (value, slots) := nextValue arch (sizes.headD 0 / arch.ptrSize) 0 slots
    let value := toSigned value 32
    (spec.flags ++ (if value < 0 then ['-'] else []), .ok (min value.natAbs maxFormatField), sizes.tail, slots)
  | some (.digits text) => (spec.flags, guest.fieldNumber text, sizes, slots)
  | none => (spec.flags, .ok 0, sizes, slots)

/-- A negative precision is none. -/
def takePrecision (spec : FormatSpec) (sizes slots : List Nat) :
    Except FormatError (Option Nat) × List Nat × List Nat :=
  match spec.precision with
  | some .star =>
    let (value, slots) := nextValue arch (sizes.headD 0 / arch.ptrSize) 0 slots
    let value := toSigned value 32
    (.ok (if 0 ≤ value then some (min value.natAbs maxFormatField) else none), sizes.tail, slots)
  | some (.digits text) => ((guest.fieldNumber text).map some, sizes, slots)
  | none => (.ok none, sizes, slots)

def isWide (spec : FormatSpec) : Bool :=
  spec.length = some .l || spec.length = some .w ||
    (spec.length ≠ some .h && (decide (spec.conv ∈ ['C', 'S'])) != wide)

/-- The string of a `%s`, `%S` or `%Z`. -/
def stringText (spec : FormatSpec) (value : Nat) : Option (List Char) :=
  let wide := isWide wide spec
  if value = 0 then some "(null)".toList
  else if spec.conv = 'Z' then do
    let count ← guest.memRead value 2
    let buf ← guest.readPtr (value + arch.ptrSize)
    let data ← guest.memRead buf (fromBytes count)
    return if wide then guest.decodeUtf16 data else guest.decodeAnsi data
  else if wide then guest.readWideString value
  else guest.readString value

/-- The text of a conversion of `value`. -/
def convert (spec : FormatSpec) (field : TextField) (size value : Nat) : Except FormatError (List Char) :=
  let bits := FormatSpec.valueBits spec.length (size * 8)
  let conv := spec.conv
  if conv ∈ "di".toList then .ok (field.int 'd' (toSigned value bits))
  else if conv ∈ "ouxX".toList then
    .ok (field.int (if conv = 'u' then 'd' else conv) (value % 2 ^ bits : Nat))
  else if conv ∈ "eEfFgGaA".toList then
    if 2 ^ 64 ≤ value then .error .packError
    else if conv ∈ "aA".toList then
      .ok (if conv = 'A' then (guest.floatHex value).map Char.toUpper else guest.floatHex value)
    else .ok (guest.floatText field conv value)
  else if conv ∈ "pP".toList then
    let pointer : TextField := ⟨field.flags.filter (· ≠ '0'), field.width, some (2 * arch.ptrSize)⟩
    .ok (pointer.int 'X' (value % 2 ^ (8 * arch.ptrSize) : Nat))
  else if conv ∈ "cC".toList then
    .ok (field.char (if isWide wide spec then [guest.chr (value % 0x10000)]
      else guest.decodeAnsi [UInt8.ofNat value]))
  else if conv ∈ "sSZ".toList then
    match guest.stringText arch wide spec value with
    | some text => .ok (field.str text)
    | none => .error .invalidRead
  else .ok []

/-- A turn of the loop. -/
def formatSpec (state : FormatState) (spec : FormatSpec) : Except FormatError FormatState :=
  if spec.conv = '%' then .ok ⟨state.out ++ ['%'], state.slots⟩
  else do
    let sizes := spec.getFormatSlotSizes arch.ptrSize
    let (flags, width, sizes, slots) := guest.takeWidth arch spec sizes state.slots
    let (precision, sizes, slots) := guest.takePrecision arch spec sizes slots
    let width ← width
    let precision ← precision
    let size := sizes.headD 0
    let (value, slots) := nextValue arch (size / arch.ptrSize) 0 slots
    let text ← guest.convert arch wide spec ⟨flags, width, precision⟩ size value
    return ⟨state.out ++ text, slots⟩

def formatPiece (state : FormatState) : Char ⊕ FormatSpec → Except FormatError FormatState
  | .inl c => .ok ⟨state.out ++ [c], state.slots⟩
  | .inr spec => guest.formatSpec arch wide state spec

def pieces (string : List Char) : List (Char ⊕ FormatSpec) := (FormatSpec.pattern guest.decimal).pieces string

/-- `do_str_format`, with the slots that it leaves. -/
def doStrFormat (string : List Char) (argv : List Nat) : Except FormatError FormatState :=
  (guest.pieces string).foldlM (guest.formatPiece arch wide) ⟨[], argv⟩

/-- `get_va_arg_count` -/
def vaArgCount (string : List Char) : Nat :=
  getVaArgCount arch ((FormatSpec.pattern guest.decimal).found string)

end FormatGuest

end

end Speakeasy
