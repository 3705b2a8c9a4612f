import Speakeasy.ByteMemory
import Speakeasy.GuestCallbacks

namespace Speakeasy

inductive IntKind
  | i8 | u8 | i16 | u16 | i32 | u32 | i64 | u64
deriving DecidableEq

def IntKind.size : IntKind → Nat
  | .i8 => 1
  | .u8 => 1
  | .i16 => 2
  | .u16 => 2
  | .i32 => 4
  | .u32 => 4
  | .i64 => 8
  | .u64 => 8

/-- A type code. Two kinds of the table differ by their size alone: `b` is a BOOL of 4 bytes, `B` of 1. The
target type of `p` and `a` is left out. -/
inductive TypeCode
  | v
  | int (kind : IntKind) (enum : Option String)
  | b
  | B
  | f32
  | f64
  | g
  | p
  | a
  | ps (name : Option String)
  | s
  | S
  | h
  /-- `st:NAME:SIZE32/SIZE64` -/
  | st (name : String) (size32 size64 : Nat)
  | arr (count : Nat) (elem : TypeCode)
deriving DecidableEq

namespace TypeCode

variable (arch : Arch)

def size : TypeCode → Nat
  | .v => 0
  | .int kind _ => kind.size
  | .b => 4
  | .B => 1
  | .f32 => 4
  | .f64 => 8
  | .g => 16
  | .p => arch.ptrSize
  | .a => arch.ptrSize
  | .ps _ => arch.ptrSize
  | .s => arch.ptrSize
  | .S => arch.ptrSize
  | .h => arch.ptrSize
  | .st _ size32 size64 => if arch.ptrSize = 8 then size64 else size32
  | .arr count elem => count * elem.size

/-- `kind in AGGREGATE_KINDS` -/
def isAggregate : TypeCode → Bool
  | .st .. => true
  | .g => true
  | _ => false

end TypeCode

structure ParamSig where
  name : String
  code : TypeCode
  flags : String := ""

namespace ParamSig

variable (arch : Arch) (param : ParamSig)

def isIn : Bool := 'i' ∈ param.flags.toList || 'o' ∉ param.flags.toList

def size : Nat := param.code.size arch

def slots : Nat :=
  if arch.ptrSize = 8 ∧ param.code.isAggregate then 1
  else max 1 ((param.size arch + arch.ptrSize - 1) / arch.ptrSize)

def valueMask : Option Nat :=
  if param.code.isAggregate then none
  else if 0 < param.size arch ∧ param.size arch < arch.ptrSize then some (2 ^ (param.size arch * 8) - 1)
  else none

/-- Win64 passes these aggregates as pointers. -/
def byReference : Bool := arch.ptrSize = 8 && param.code.isAggregate && param.size arch ∉ [1, 2, 4, 8]

end ParamSig

/-- The slots of a parameter joined into one integer. -/
def joinSlots (arch : Arch) (chunk : List Nat) : Nat :=
  chunk.zipIdx.foldl (fun value (slot, i) =>
    value ||| (slot &&& (2 ^ (arch.ptrSize * 8) - 1)) <<< (i * arch.ptrSize * 8)) 0

def slotValue (arch : Arch) (param : ParamSig) (chunk : List Nat) : Nat :=
  match param.valueMask arch with
  | some mask => joinSlots arch chunk &&& mask
  | none => joinSlots arch chunk

def slotCount (arch : Arch) (params : List ParamSig) : Nat := (params.map (·.slots arch)).sum

/-- `values_from_slots` -/
def valuesFromSlots (arch : Arch) : List ParamSig → List Nat → List Nat
  | [], _ => []
  | param :: params, slots =>
    slotValue arch param (slots.take (param.slots arch)) ::
      valuesFromSlots arch params (slots.drop (param.slots arch))

/-! A value is a number of bytes of its slots. -/

def slotBytes (arch : Arch) (chunk : List Nat) : List UInt8 := chunk.flatMap (toBytes arch.ptrSize)

theorem slotBytes_length (arch : Arch) (chunk : List Nat) :
    (slotBytes arch chunk).length = chunk.length * arch.ptrSize := by
  simp [slotBytes]

theorem fromBytes_append (a b : List UInt8) : fromBytes (a ++ b) = fromBytes a + 256 ^ a.length * fromBytes b := by
  induction a with
  | nil => simp [fromBytes]
  | cons x a ih =>
    rw [List.cons_append, fromBytes, ih, fromBytes, List.length_cons, Nat.pow_succ', Nat.mul_add, Nat.mul_assoc,
      Nat.add_assoc]

theorem fromBytes_take (bytes : List UInt8) (n : Nat) : fromBytes (bytes.take n) = fromBytes bytes % 256 ^ n := by
  by_cases hn : n ≤ bytes.length
  · have hlen : (bytes.take n).length = n := by rw [List.length_take, Nat.min_eq_left hn]
    have hlt := fromBytes_lt (bytes.take n)
    have hsplit := fromBytes_append (bytes.take n) (bytes.drop n)
    rw [List.take_append_drop, hlen] at hsplit
    rw [hlen] at hlt
    rw [hsplit, Nat.add_mul_mod_self_left, Nat.mod_eq_of_lt hlt]
  · have hlt := fromBytes_lt bytes
    have hpow : 256 ^ bytes.length ≤ 256 ^ n := Nat.pow_le_pow_right (by decide) (by omega)
    rw [List.take_of_length_le (by omega), Nat.mod_eq_of_lt (by omega)]

theorem pow_bits (n : Nat) : 2 ^ (n * 8) = 256 ^ n := by
  rw [Nat.mul_comm, Nat.pow_mul]

theorem and_bits (value n : Nat) : value &&& (2 ^ (n * 8) - 1) = value % 256 ^ n := by
  rw [Nat.and_two_pow_sub_one_eq_mod, pow_bits]

theorem foldl_join (arch : Arch) (chunk : List Nat) (k : Nat) {value : Nat}
    (h : value < 2 ^ (k * arch.ptrSize * 8)) :
    (chunk.zipIdx k).foldl (fun value (slot, i) =>
      value ||| (slot &&& (2 ^ (arch.ptrSize * 8) - 1)) <<< (i * arch.ptrSize * 8)) value =
      value + 2 ^ (k * arch.ptrSize * 8) * fromBytes (slotBytes arch chunk) := by
  induction chunk generalizing k value with
  | nil => simp [slotBytes, fromBytes]
  | cons slot chunk ih =>
    have hslot : slot &&& (2 ^ (arch.ptrSize * 8) - 1) = fromBytes (toBytes arch.ptrSize slot) := by
      rw [and_bits, fromBytes_toBytes]
    have hlt := fromBytes_lt (toBytes arch.ptrSize slot)
    rw [toBytes_length, ← pow_bits] at hlt
    have hor : value ||| (slot &&& (2 ^ (arch.ptrSize * 8) - 1)) <<< (k * arch.ptrSize * 8) =
        value + 2 ^ (k * arch.ptrSize * 8) * fromBytes (toBytes arch.ptrSize slot) := by
      rw [hslot, Nat.or_comm, ← Nat.shiftLeft_add_eq_or_of_lt h, Nat.shiftLeft_eq, Nat.mul_comm,
        Nat.add_comm]
    have hpow : 2 ^ ((k + 1) * arch.ptrSize * 8) = 2 ^ (k * arch.ptrSize * 8) * 2 ^ (arch.ptrSize * 8) := by
      rw [Nat.add_mul, Nat.add_mul, Nat.one_mul, Nat.pow_add]
    have hnext : value + 2 ^ (k * arch.ptrSize * 8) * fromBytes (toBytes arch.ptrSize slot) <
        2 ^ ((k + 1) * arch.ptrSize * 8) := by
      rw [hpow]
      have hmul := Nat.mul_le_mul_left (2 ^ (k * arch.ptrSize * 8)) (Nat.succ_le_of_lt hlt)
      rw [Nat.mul_succ] at hmul
      omega
    have hbytes : fromBytes (slotBytes arch (slot :: chunk)) =
        fromBytes (toBytes arch.ptrSize slot) + 2 ^ (arch.ptrSize * 8) * fromBytes (slotBytes arch chunk) := by
      unfold slotBytes
      rw [List.flatMap_cons, fromBytes_append, toBytes_length, pow_bits]
    rw [List.zipIdx_cons, List.foldl_cons]
    simp only [hor]
    rw [ih (k + 1) hnext, hbytes, hpow, Nat.mul_add, Nat.add_assoc, Nat.mul_assoc (2 ^ (k * arch.ptrSize * 8))]

/-- The joined slots are the little endian integer of their bytes. -/
theorem joinSlots_eq (arch : Arch) (chunk : List Nat) : joinSlots arch chunk = fromBytes (slotBytes arch chunk) := by
  have hzero : 0 < 2 ^ (0 * arch.ptrSize * 8) := by simp
  unfold joinSlots
  rw [foldl_join arch chunk 0 hzero]
  simp

inductive ApiArgType
  | int | float | guid | ptr | str | bool | handle | flags | enum | bytes | struct
deriving DecidableEq

structure RenderedArg where
  text : String
  kind : ApiArgType
deriving DecidableEq

structure EnumDef where
  values : List (String × Int)
  flags : Bool := false

structure FieldDef where
  name : String
  code : TypeCode
  offset32 : Nat
  offset64 : Nat

structure StructDef where
  size32 : Nat
  size64 : Nat
  fields : List FieldDef := []

def FieldDef.offset (arch : Arch) (field : FieldDef) : Nat :=
  if arch.ptrSize = 8 then field.offset64 else field.offset32

def StructDef.size (arch : Arch) (struct : StructDef) : Nat :=
  if arch.ptrSize = 8 then struct.size64 else struct.size32

namespace TypeCode

/-- The struct that is a part of a value of the code. -/
def inner : TypeCode → Option String
  | .st name _ _ => some name
  | .arr _ elem => elem.inner
  | _ => none

end TypeCode

/-- The structs of a signature database. No struct is a part of itself: `rank` falls from a struct to the
structs in its fields. -/
structure StructTable where
  lookup : String → Option StructDef
  rank : String → Nat
  nested : ∀ {name struct}, lookup name = some struct → ∀ field ∈ struct.fields,
    ∀ {part}, field.code.inner = some part → rank part < rank name

def hexNumber (n : Nat) : String := "0x" ++ String.ofList (Nat.toDigits 16 n)

/-- `bytes.hex()` -/
def hexBytes (data : List UInt8) : String :=
  String.ofList (data.flatMap fun b => [Nat.digitChar (b.toNat / 16), Nat.digitChar (b.toNat % 16)])

def quoteString (text : String) : String := "\"" ++ text.replace "\n" "\\n" ++ "\""

def popcount (n : Nat) : Nat := (Nat.toDigits 2 n).count '1'

/-- The loop over the members of a flags value, with the bits that are left. -/
def takeFlags (remaining : Nat) : List (String × Int) → List String × Nat
  | [] => ([], remaining)
  | (name, member) :: members =>
    if 0 < member ∧ remaining &&& member.toNat = member.toNat then
      let remaining := remaining ^^^ member.toNat
      if remaining = 0 then ([name], 0)
      else
        let (names, remaining) := takeFlags remaining members
        (name :: names, remaining)
    else takeFlags remaining members

/-- More bits first, then higher values. -/
def flagsBefore (a b : String × Int) : Bool :=
  popcount b.2.natAbs < popcount a.2.natAbs || (popcount b.2.natAbs = popcount a.2.natAbs && b.2 ≤ a.2)

/-- `get_value_names` -/
def getValueNames (members : List (String × Int)) (value : Nat) (flags : Bool) : List String :=
  match members.find? fun m => m.2 = (value : Int) with
  | some (name, _) => [name]
  | none =>
    if !flags || value = 0 then [hexNumber value]
    else
      let (names, remaining) := takeFlags value (members.mergeSort flagsBefore)
      if remaining ≠ 0 ∨ names = [] then names ++ [hexNumber remaining] else names

def EnumDef.decode (enum : EnumDef) (value : Nat) : String :=
  "|".intercalate (getValueNames enum.values value enum.flags)

/-- An emulator to which the arguments belong: its signature database, its memory, where `none` is an address
that is not mapped, and the texts of floats and of characters. -/
structure ArgFormatter (arch : Arch) where
  structs : StructTable
  lookupEnum : String → Option EnumDef
  memory : Nat → Option UInt8
  readXmm : Option (Nat → Option Nat)
  /-- `repr` of a float with these bytes. -/
  floatText : List UInt8 → Option String
  decodeAnsi : List UInt8 → String
  decodeUtf16 : List UInt8 → String

namespace ArgFormatter

variable {arch : Arch} (f : ArgFormatter arch)

def maxStringChars : Nat := 0x1000
def maxPointerDepth : Nat := 1
def maxArrayItems : Nat := 8
def maxBlobBytes : Nat := 16
def maxRenderChars : Nat := 1024

def readMem (address size : Nat) : Option (List UInt8) :=
  (List.range size).mapM fun i => f.memory (address + i)

def truncate (text : String) : String :=
  if maxRenderChars < text.length then String.ofList (text.toList.take maxRenderChars) ++ "..." else text

/-- `_find_terminator`, where the second argument is the offset of the first. -/
def findTerminator (width : Nat) (offset : Nat) : List UInt8 → Option Nat
  | [] => none
  | b :: raw =>
    if b = 0 ∧ (width ≠ 2 ∨ (raw.head? = some 0 ∧ offset % 2 = 0)) then some offset
    else findTerminator width (offset + 1) raw

/-- `_decode` -/
def decode (raw : List UInt8) (width : Nat) : String :=
  let raw :=
    match findTerminator width 0 raw with
    | some stop => raw.take stop
    | none => raw
  if width = 2 then f.decodeUtf16 (raw.take (raw.length - raw.length % 2)) else f.decodeAnsi raw

/-- `_read_string`. A turn reads more, or less at a time. No read is empty. -/
def readString (width maxChars address chunk : Nat) (data : List UInt8) : Option String :=
  if _hmore : data.length < maxChars * width then
    match f.readMem (address + data.length) chunk with
    | none =>
      if hchunk : width < chunk then readString width maxChars address (chunk / 2) data
      else if data = [] then none
      else some (f.decode data width)
    | some part =>
      if _hend : part = [] ∨ (findTerminator width 0 (data ++ part)).isSome then
        some (f.decode (data ++ part) width)
      else readString width maxChars address chunk (data ++ part)
  else some (f.decode data width)
termination_by (maxChars * width - data.length, chunk)
decreasing_by
  · exact Prod.Lex.right _ (by omega)
  · have hpart : 0 < part.length := List.length_pos_iff.mpr fun hnil => _hend (Or.inl hnil)
    refine Prod.Lex.left _ _ ?_
    rw [List.length_append]
    omega

/-- `_format_string_ptr` without its default: at most `MAX_STRING_CHARS` characters. -/
def formatStringPtr (address width : Nat) : String :=
  match f.readString width maxStringChars address (0x100 * width) [] with
  | some text => quoteString text
  | none => hexNumber address

def formatFloat (code : TypeCode) (value : Nat) : String :=
  (f.floatText (toBytes (code.size arch) value)).getD (hexNumber value)

def formatGuid (raw : List UInt8) : String :=
  if raw.length < 16 then "0x" ++ hexBytes raw
  else
    "\x7b" ++ hexBytes (raw.take 4).reverse ++ "-" ++ hexBytes ((raw.drop 4).take 2).reverse ++ "-" ++
      hexBytes ((raw.drop 6).take 2).reverse ++ "-" ++ hexBytes ((raw.drop 8).take 2) ++ "-" ++
      hexBytes ((raw.drop 10).take 6) ++ "\x7d"

def fieldInt (arch : Arch) (field : FieldDef) (data : List UInt8) : Option Nat :=
  let size := field.code.size arch
  let raw := (data.drop (field.offset arch)).take size
  if raw.length < size then none else some (fromBytes raw)

/-- The width of the characters of a counted string. -/
def countedStringWidth (name : String) : Option Nat :=
  if name ∈ ["UNICODE_STRING", "CUNICODE_STRING"] then some 2
  else if name ∈ ["STRING", "ANSI_STRING"] then some 1
  else none

/-- `_render_special_struct`. A later field of a name counts. -/
def renderSpecialStruct (name : String) (struct : StructDef) (data : List UInt8) : Option RenderedArg :=
  if name ∈ ["LARGE_INTEGER", "ULARGE_INTEGER"] ∧ 8 ≤ data.length then
    some ⟨hexNumber (fromBytes (data.take 8)), .int⟩
  else do
    let width ← countedStringWidth name
    let lengthField ← struct.fields.reverse.find? fun field => field.name = "Length"
    let bufferField ← struct.fields.reverse.find? fun field => field.name = "Buffer"
    let length ← fieldInt arch lengthField data
    let buffer ← fieldInt arch bufferField data
    if buffer = 0 then none
    let raw ← f.readMem buffer (min length (maxStringChars * width))
    return ⟨f.decode raw width, .str⟩

/-- `_format_scalar`, without its structs. -/
def formatScalar (code : TypeCode) (value : Nat) : String :=
  match code with
  | .s => if value = 0 then hexNumber value else f.formatStringPtr value 1
  | .S => if value = 0 then hexNumber value else f.formatStringPtr value 2
  | .b => if value = 0 then "FALSE" else if value = 1 then "TRUE" else hexNumber value
  | .B => if value = 0 then "FALSE" else if value = 1 then "TRUE" else hexNumber value
  | .f32 => f.formatFloat code value
  | .f64 => f.formatFloat code value
  | .int _ (some name) =>
    match f.lookupEnum name with
    | some enum => enum.decode value
    | none => hexNumber value
  | _ => hexNumber value

def printable (text : String) : Bool :=
  text.toList.all fun c => (32 ≤ c.toNat && c.toNat < 127) || c ∈ ['\t', '\r', '\n']

/-- An array of single bytes as text or as hex. -/
def formatByteArray (count : Nat) (raw : List UInt8) : String :=
  let text := f.decode raw 1
  if (text.length < count ∨ count = 0) ∧ printable text then quoteString text
  else "0x" ++ hexBytes (raw.take maxBlobBytes) ++ if maxBlobBytes < raw.length then "..." else ""

mutual

/-- `_format_struct_bytes` -/
def formatStructBytes (name : String) (data : List UInt8) (depth : Nat) : String :=
  match hlookup : f.structs.lookup name with
  | none => "0x" ++ hexBytes data
  | some struct =>
    if struct.fields.isEmpty then "0x" ++ hexBytes data
    else
      match f.renderSpecialStruct name struct data with
      | some special => if special.kind = .str then quoteString special.text else special.text
      | none =>
        let parts := struct.fields.attach.map fun ⟨field, hfield⟩ =>
          let size := field.code.size arch
          let raw := (data.drop (field.offset arch)).take size
          field.name ++ ": " ++
            if raw.length < size then "?"
            else formatField (f.structs.rank name) field.code (f.structs.nested hlookup field hfield) raw depth
        "\x7b" ++ ", ".intercalate parts ++ "\x7d"
termination_by (maxPointerDepth - depth, 2 * f.structs.rank name + 1, 0)

/-- `_format_field`. The structs in the code have a rank below `bound`. -/
def formatField (bound : Nat) (code : TypeCode)
    (hbound : ∀ {part}, code.inner = some part → f.structs.rank part < bound) (raw : List UInt8) (depth : Nat) :
    String :=
  match code with
  | .g => formatGuid raw
  | .st name _ _ =>
    have : f.structs.rank name < bound := hbound rfl
    formatStructBytes name raw depth
  | .arr count elem =>
    if elem matches .int .u16 _ then quoteString (f.decode raw 2)
    else if elem matches .int .u8 _ || elem matches .int .i8 _ then f.formatByteArray count raw
    else
      let esize := elem.size arch
      if esize = 0 then "[]"
      else
        let items := (List.range (min count maxArrayItems)).map fun i =>
          formatField bound elem hbound ((raw.drop (i * esize)).take esize) depth
        "[" ++ ", ".intercalate (items ++ if maxArrayItems < count then ["..."] else []) ++ "]"
  | .ps (some name) =>
    let value := fromBytes raw
    if value ≠ 0 ∧ depth < maxPointerDepth then formatStructPtr name value (depth + 1) else hexNumber value
  | code => f.formatScalar code (fromBytes raw)
termination_by (maxPointerDepth - depth, 2 * bound, sizeOf code)

/-- `_format_struct_ptr` -/
def formatStructPtr (name : String) (address depth : Nat) : String :=
  match f.structs.lookup name with
  | none => hexNumber address
  | some struct =>
    if struct.fields.isEmpty ∨ struct.size arch = 0 then hexNumber address
    else
      match f.readMem address (struct.size arch) with
      | none => hexNumber address
      | some data => formatStructBytes name data depth
termination_by (maxPointerDepth - depth, 2 * f.structs.rank name + 2, 0)

end

end ArgFormatter

end Speakeasy
