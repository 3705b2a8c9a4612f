import Speakeasy.ByteMemory
import Speakeasy.ApiRegistry

namespace Speakeasy

section

/-- A byte array. The bytes after its end do not count. -/
structure ByteBuffer where
  size : Nat
  bytes : ByteMemory

/-- A field of a packed structure. -/
inductive PackField
  | int (width value : Nat)
  | bytes (width : Nat) (data : List UInt8)
deriving DecidableEq, Repr

def PackField.encode : PackField → List UInt8
  | .int width value => toBytes width value
  | .bytes width data => (data ++ List.replicate (width - data.length) 0).take width

/-- An integer that does not fit its field is an error. -/
def PackField.Fits : PackField → Prop
  | .int width value => value < 256 ^ width
  | .bytes _ _ => True

instance (f : PackField) : Decidable f.Fits := by
  cases f <;> (unfold PackField.Fits; infer_instance)

def packFields (fields : List PackField) : List UInt8 := fields.flatMap PackField.encode

theorem packFields_append (xs ys : List PackField) :
    packFields (xs ++ ys) = packFields xs ++ packFields ys := List.flatMap_append

/-- An integer field is read back at its place in the structure. -/
theorem ByteMemory.Holds.field (pre : List PackField) {m : ByteMemory} {a : Nat}
    {post : List PackField} {width value : Nat} (h : m.Holds a (packFields (pre ++ .int width value :: post)))
    (hfit : value < 256 ^ width) : m.readInt (a + (packFields pre).length) width = value := by
  have hsplit : packFields (pre ++ .int width value :: post) =
      packFields pre ++ (toBytes width value ++ packFields post) := by
    rw [packFields_append]
    rfl
  have hpart : m.readBytes (a + (packFields pre).length) width =
      ((packFields (pre ++ .int width value :: post)).drop (packFields pre).length).take width :=
    h.part (by
    rw [hsplit, List.length_append, List.length_append, toBytes_length]
    omega)
  rw [hsplit, List.drop_left' rfl, List.take_left' (toBytes_length ..)] at hpart
  rw [ByteMemory.readInt, hpart, fromBytes_toBytes_of_lt hfit]

namespace ByteBuffer

def filled (size : Nat) (b : UInt8) : ByteBuffer := ⟨size, fun _ => b⟩

def extend (buf : ByteBuffer) (data : List UInt8) : ByteBuffer :=
  ⟨buf.size + data.length, buf.bytes.writeBytes buf.size data⟩

/-- `buf[start : start + len(data)] = data`: an array that is too short grows. -/
def setSlice (buf : ByteBuffer) (start : Nat) (data : List UInt8) : ByteBuffer :=
  let start := min start buf.size
  ⟨max buf.size (start + data.length), buf.bytes.writeBytes start data⟩

/-- Pack the fields at an offset. Fields that end after the array are an error. -/
def packInto (buf : ByteBuffer) (offset : Nat) (fields : List PackField) : Option ByteBuffer :=
  if (∀ f ∈ fields, f.Fits) ∧ offset + (packFields fields).length ≤ buf.size then
    some ⟨buf.size, buf.bytes.writeBytes offset (packFields fields)⟩
  else none

def packAll (buf : ByteBuffer) (writes : List (Nat × List PackField)) : Option ByteBuffer :=
  writes.foldlM (fun buf w => buf.packInto w.1 w.2) buf

/-- The bytes that the writes put, each at its offset. -/
def packed (writes : List (Nat × List PackField)) : List (Nat × List UInt8) :=
  writes.map fun w => (w.1, packFields w.2)

variable {buf buf' : ByteBuffer} {writes : List (Nat × List PackField)}

theorem packAll_spec (h : buf.packAll writes = some buf') :
    buf' = ⟨buf.size, buf.bytes.writeAll (packed writes)⟩ ∧
      ∀ w ∈ writes, (∀ f ∈ w.2, f.Fits) ∧ w.1 + (packFields w.2).length ≤ buf.size := by
  induction writes generalizing buf with
  | nil =>
    cases h
    exact ⟨rfl, by simp⟩
  | cons w writes ih =>
    simp only [packAll, List.foldlM_cons, Option.bind_eq_bind, Option.bind_eq_some_iff] at h
    obtain ⟨mid, hmid, hrest⟩ := h
    unfold packInto at hmid
    split at hmid
    next hfits =>
      cases hmid
      obtain ⟨heq, hall⟩ := ih hrest
      refine ⟨heq, fun v hv => ?_⟩
      rcases List.mem_cons.mp hv with rfl | hv
      · exact hfits
      · exact hall v hv
    next => cases hmid

theorem setSlice_size {start : Nat} {data : List UInt8} (h : start + data.length ≤ buf.size) :
    (buf.setSlice start data).size = buf.size := by
  simp only [setSlice]
  omega

@[simp] theorem extend_size (data : List UInt8) : (buf.extend data).size = buf.size + data.length := rfl

theorem readBytes_extend_of_le {data : List UInt8} {a count : Nat} (h : a + count ≤ buf.size) :
    (buf.extend data).bytes.readBytes a count = buf.bytes.readBytes a count :=
  ByteMemory.readBytes_writeBytes_of_apart (Or.inl h)

theorem readBytes_filled (size : Nat) (b : UInt8) (a count : Nat) :
    (filled size b).bytes.readBytes a count = List.replicate count b := by
  simp [filled, ByteMemory.readBytes]

/-- The array grew, and its old part is as before. -/
structure Extends (buf buf' : ByteBuffer) : Prop where
  size_le : buf.size ≤ buf'.size
  read : ∀ a count, a + count ≤ buf.size → buf'.bytes.readBytes a count = buf.bytes.readBytes a count

theorem Extends.refl (buf : ByteBuffer) : buf.Extends buf := ⟨Nat.le_refl _, fun _ _ _ => rfl⟩

theorem Extends.trans {a b c : ByteBuffer} (h : a.Extends b) (h' : b.Extends c) : a.Extends c where
  size_le := h.size_le.trans h'.size_le
  read x count hx := (h'.read x count (hx.trans h.size_le)).trans (h.read x count hx)

theorem extends_extend (buf : ByteBuffer) (data : List UInt8) : buf.Extends (buf.extend data) :=
  ⟨Nat.le_add_right _ _, fun _ _ => readBytes_extend_of_le⟩

end ByteBuffer

end

structure MemoryRegion where
  base : Nat
  data : ByteBuffer
  name : PyStr
  perms : Nat

structure ImportEntry where
  iatAddress : Nat
  dllName : PyStr
  funcName : PyStr
deriving DecidableEq, Repr

inductive ModuleType
  | exe
  | dll
  | driver
  | shellcode
deriving DecidableEq, Repr

/-- The addresses are RVAs until the image is relocated. -/
structure LoadedImage where
  arch : Arch
  moduleType : ModuleType
  name : PyStr
  emuPath : PyStr
  imageBase : Nat
  imageSize : Nat
  regions : List MemoryRegion
  imports : List ImportEntry
  exports : List ExportEntry
  entryPoints : List Nat
  visibleInPeb : Bool := true
  stackSize : Nat := 0x12000
  sections : List SectionEntry := []
  source : ImageSource := .guestPe

end Speakeasy
