import Mathlib.Data.List.Sort
import Speakeasy.LoadedImage
import Mathlib.Data.List.TakeWhile

namespace Speakeasy

section

structure PeMetadata where
  magic : Nat

structure BaseRelocation where
  rva : Nat
  type : Nat
deriving DecidableEq

def imageRelBasedAbsolute : Nat := 0
def imageRelBasedHighlow : Nat := 3
def imageRelBasedDir64 : Nat := 10

/-- The bytes of the field that a relocation changes. -/
def BaseRelocation.size (r : BaseRelocation) : Nat :=
  if r.type = imageRelBasedHighlow then 4 else if r.type = imageRelBasedDir64 then 8 else 0

/-- A loaded image with what the loader of guest PEs adds. -/
structure GuestImage extends LoadedImage where
  tlsCallbacks : List Nat := []
  tlsDirectory : Option Nat := none
  resourceDirectory : Option (Nat × Nat) := none
  peMetadata : Option PeMetadata := none
  relocations : Option (List BaseRelocation) := none

/-- The errors, which are a `ValueError` with its text but for the last, the `OverflowError` of `to_bytes`. -/
inductive RelocateError
  | value (text : String)
  | overflow
deriving DecidableEq

/-- Some bytes after the end of the data are zeros. -/
def ByteBuffer.byteAt (buf : ByteBuffer) (i : Nat) : UInt8 := if i < buf.size then buf.bytes i else 0

/-- `bisect_right`, for numbers in their order. -/
def bisectRight (starts : List Nat) (x : Nat) : Nat := (starts.takeWhile (· ≤ x)).length

/-- The regions in the order of their bases. -/
def regionOrder (bases : List Nat) : List Nat :=
  (List.range bases.length).insertionSort fun i j => bases.getD i 0 ≤ bases.getD j 0

/-- `bisect_right(starts, rva) - 1`, as a region. -/
def regionOf (bases : List Nat) (rva : Nat) : Option Nat :=
  match bisectRight ((regionOrder bases).map fun i => bases.getD i 0) rva with
  | 0 => none
  | position + 1 => (regionOrder bases)[position]?

/-- The value of a field gets the difference of the bases. -/
def ByteBuffer.relocate (buf : ByteBuffer) (offset size : Nat) (delta : Int) : ByteBuffer :=
  let buf := buf.extend (List.replicate (offset + size - buf.size) 0)
  let value := fromBytes (buf.bytes.readBytes offset size) + delta
  buf.setSlice offset (toBytes size (value % 2 ^ (8 * size)).toNat)

namespace GuestImage

variable (image : GuestImage)

def bases : List Nat := image.regions.map MemoryRegion.base

def start (i : Nat) : Nat := image.bases.getD i 0

/-- The data of each region. -/
def data (i : Nat) : ByteBuffer :=
  match image.regions[i]? with
  | some region => region.data
  | none => ⟨0, fun _ => 0⟩

/-- The loop body of `relocate_image`. -/
def applyRelocation (delta : Int) (data : Nat → ByteBuffer) (relocation : BaseRelocation) :
    Except RelocateError (Nat → ByteBuffer) :=
  if relocation.type = imageRelBasedAbsolute then .ok data
  else if relocation.type ≠ imageRelBasedHighlow ∧ relocation.type ≠ imageRelBasedDir64 then
    .error (.value s!"Unsupported base relocation type {relocation.type}")
  else
    match regionOf image.bases relocation.rva with
    | none => .error (.value "Base relocation lies outside the image")
    | some i =>
      if relocation.rva + relocation.size > image.imageSize then
        .error (.value "Base relocation lies outside the image")
      else .ok (Function.update data i ((data i).relocate (relocation.rva - image.start i) relocation.size delta))

def applyRelocations (delta : Int) (data : Nat → ByteBuffer) : Except RelocateError (Nat → ByteBuffer) :=
  (image.relocations.getD []).foldlM (image.applyRelocation delta) data

/-- The offset and the size of the ImageBase field that `_write_image_base` finds in the data of a region. -/
def imageBaseField (buf : ByteBuffer) : Option (Nat × Nat) :=
  match image.peMetadata with
  | none => none
  | some metadata =>
    let size := if metadata.magic = 0x20B then 8 else 4
    let offset := fromBytes (buf.bytes.readBytes 0x3C 4) + 4 + 20 + if size = 8 then 24 else 28
    if buf.size < 0x40 ∨ buf.size < offset + size then none else some (offset, size)

/-- `_write_image_base` -/
def writeImageBase (buf : ByteBuffer) (base : Nat) : Except RelocateError ByteBuffer :=
  match image.imageBaseField buf with
  | none => .ok buf
  | some (offset, size) =>
    if base < 256 ^ size then .ok (buf.setSlice offset (toBytes size base)) else .error .overflow

/-- The region at RVA 0, which has the PE header. -/
def headerRegion : Option Nat :=
  match regionOrder image.bases with
  | first :: _ => if image.start first = 0 then some first else none
  | [] => none

/-- The data of the regions at a base. -/
def relocateData (base : Nat) : Except RelocateError (Nat → ByteBuffer) :=
  if base = image.imageBase then .ok image.data
  else if image.relocations = none then
    .error (.value "Cannot rebase a guest PE without valid relocation data")
  else do
    let data ← image.applyRelocations (base - image.imageBase) image.data
    match image.headerRegion with
    | none => return data
    | some first =>
      let buf ← image.writeImageBase (data first) base
      return Function.update data first buf

/-- The addresses of the image at a base, with the data of its regions. -/
def atBase (base : Nat) (data : Nat → ByteBuffer) : GuestImage :=
  { image with
    imageBase := base
    regions := image.regions.mapIdx fun i region => { region with base := base + region.base, data := data i }
    imports := image.imports.map fun entry => { entry with iatAddress := base + entry.iatAddress }
    exports := image.exports.map fun entry => { entry with address := base + entry.address }
    entryPoints := image.entryPoints.map (base + ·)
    tlsCallbacks := image.tlsCallbacks.map (base + ·)
    tlsDirectory := image.tlsDirectory.map (base + ·)
    resourceDirectory := image.resourceDirectory.map fun directory => (base + directory.1, directory.2) }

/-- `f"{base:#x}"` -/
def baseText (base : Int) : String :=
  (if base < 0 then "-0x" else "0x") ++ String.ofList (Nat.toDigits 16 base.natAbs)

/-- `relocate_image` -/
def relocateImage (base : Int) : Except RelocateError GuestImage :=
  if base < 0 ∨ base + image.imageSize > 2 ^ image.arch.bits then
    .error (.value ("Image does not fit in the address space at " ++ baseText base))
  else do
    let data ← image.relocateData base.toNat
    return image.atBase base.toNat data

end GuestImage

end

section

section

variable {α : Type} {f : α → Nat} {l : List α}

/-- In a sorted list, the elements up to a bound are all at the front. -/
theorem mem_takeWhile_of_sorted (h : l.Pairwise fun a b => f a ≤ f b) {a : α} {x : Nat} (ha : a ∈ l) (hx : f a ≤ x) :
    a ∈ l.takeWhile fun b => decide (f b ≤ x) := by
  induction l with
  | nil => cases ha
  | cons b l ih =>
    obtain ⟨hb, hl⟩ := List.pairwise_cons.mp h
    by_cases hbx : f b ≤ x
    · rw [List.takeWhile_cons, if_pos (decide_eq_true hbx)]
      cases List.mem_cons.mp ha with
      | inl heq => exact List.mem_cons.mpr (Or.inl heq)
      | inr hmem => exact List.mem_cons_of_mem _ (ih hl hmem)
    · exfalso
      cases List.mem_cons.mp ha with
      | inl heq => exact hbx (heq ▸ hx)
      | inr hmem => exact hbx ((hb a hmem).trans hx)

theorem getElem?_takeWhile {p : α → Bool} {n : Nat} (h : n < (l.takeWhile p).length) :
    (l.takeWhile p)[n]? = l[n]? := by
  have hsplit : l.takeWhile p ++ l.dropWhile p = l := List.takeWhile_append_dropWhile
  calc (l.takeWhile p)[n]? = (l.takeWhile p ++ l.dropWhile p)[n]? := (List.getElem?_append_left h).symm
    _ = l[n]? := by rw [hsplit]

theorem le_last_of_sorted (h : l.Pairwise fun a b => f a ≤ f b) {n : Nat} {a last : α} (hlen : l.length = n + 1)
    (hlast : l[n]? = some last) (ha : a ∈ l) : f a ≤ f last := by
  obtain ⟨k, hk⟩ := List.mem_iff_getElem?.mp ha
  obtain ⟨hklt, hka⟩ := List.getElem?_eq_some_iff.mp hk
  obtain ⟨hnlt, hnlast⟩ := List.getElem?_eq_some_iff.mp hlast
  by_cases heq : k = n
  · rw [heq] at hk
    rw [Option.some.inj (hk.symm.trans hlast)]
  · have hle := List.pairwise_iff_getElem.mp h k n hklt hnlt (by omega)
    rwa [hka, hnlast] at hle

end

section

variable {bases : List Nat} {rva i : Nat}

theorem regionOrder_perm (bases : List Nat) : (regionOrder bases).Perm (List.range bases.length) :=
  List.perm_insertionSort _ _

theorem mem_regionOrder : i ∈ regionOrder bases ↔ i < bases.length := by
  rw [(regionOrder_perm bases).mem_iff, List.mem_range]

theorem regionOrder_sorted (bases : List Nat) :
    (regionOrder bases).Pairwise fun i j => bases.getD i 0 ≤ bases.getD j 0 := by
  have htotal : Std.Total fun i j : Nat => bases.getD i 0 ≤ bases.getD j 0 := ⟨fun i j => Nat.le_total _ _⟩
  have htrans : IsTrans Nat fun i j : Nat => bases.getD i 0 ≤ bases.getD j 0 := ⟨fun i j k => Nat.le_trans⟩
  exact List.pairwise_insertionSort _ _

theorem bisectRight_map (order : List Nat) : bisectRight (order.map fun i => bases.getD i 0) rva =
    (order.takeWhile fun i => decide (bases.getD i 0 ≤ rva)).length := by
  unfold bisectRight
  rw [List.takeWhile_map, List.length_map]
  rfl

/-- The region of an RVA is the last one that starts at it or before. -/
theorem regionOf_eq_some (h : regionOf bases rva = some i) : i < bases.length ∧ bases.getD i 0 ≤ rva ∧
    ∀ j < bases.length, bases.getD j 0 ≤ rva → bases.getD j 0 ≤ bases.getD i 0 := by
  unfold regionOf at h
  rw [bisectRight_map] at h
  cases hlen : ((regionOrder bases).takeWhile fun i => decide (bases.getD i 0 ≤ rva)).length with
  | zero =>
    rw [hlen] at h
    cases h
  | succ position =>
    rw [hlen] at h
    have hlast : ((regionOrder bases).takeWhile fun i => decide (bases.getD i 0 ≤ rva))[position]? = some i :=
      (getElem?_takeWhile (by omega)).trans h
    have hmem := List.mem_of_getElem? hlast
    have hsorted := (regionOrder_sorted bases).sublist (List.takeWhile_sublist fun i => decide (bases.getD i 0 ≤ rva))
    refine ⟨mem_regionOrder.mp ((List.takeWhile_sublist _).mem hmem), ?_, fun j hj hle => ?_⟩
    · have hle : decide (bases.getD i 0 ≤ rva) = true :=
        @List.mem_takeWhile_imp _ (fun i => decide (bases.getD i 0 ≤ rva)) _ _ hmem
      exact of_decide_eq_true hle
    · exact le_last_of_sorted hsorted hlen hlast
        (mem_takeWhile_of_sorted (regionOrder_sorted bases) (mem_regionOrder.mpr hj) hle)

theorem regionOf_isSome {j : Nat} (hj : j < bases.length) (hle : bases.getD j 0 ≤ rva) :
    (regionOf bases rva).isSome = true := by
  have hmem := mem_takeWhile_of_sorted (regionOrder_sorted bases) (mem_regionOrder.mpr hj) hle
  have hlt := (List.takeWhile_sublist (fun i => decide (bases.getD i 0 ≤ rva)) : List.Sublist _ (regionOrder bases)).length_le
  unfold regionOf
  rw [bisectRight_map]
  cases hlen : ((regionOrder bases).takeWhile fun i => decide (bases.getD i 0 ≤ rva)).length with
  | zero =>
    rw [List.length_eq_zero_iff.mp hlen] at hmem
    cases hmem
  | succ position =>
    rw [hlen] at hlt
    show (regionOrder bases)[position]?.isSome = true
    rw [List.getElem?_eq_getElem (by omega)]
    rfl

/-- Without a start between them, two RVAs have one region. -/
theorem regionOf_congr {x y : Nat} (h : ∀ j < bases.length, (bases.getD j 0 ≤ x ↔ bases.getD j 0 ≤ y)) :
    regionOf bases x = regionOf bases y := by
  have hwhile : ∀ l : List Nat, (∀ j ∈ l, j < bases.length) →
      (l.takeWhile fun i => decide (bases.getD i 0 ≤ x)).length =
        (l.takeWhile fun i => decide (bases.getD i 0 ≤ y)).length := by
    intro l hl
    induction l with
    | nil => rfl
    | cons j l ih =>
      have hj := h j (hl j List.mem_cons_self)
      have hrest := ih fun k hk => hl k (List.mem_cons_of_mem _ hk)
      rw [List.takeWhile_cons, List.takeWhile_cons]
      by_cases hx : bases.getD j 0 ≤ x
      · rw [if_pos (decide_eq_true hx), if_pos (decide_eq_true (hj.mp hx)), List.length_cons, List.length_cons, hrest]
      · rw [if_neg (by simpa using hx), if_neg (by simpa using fun hy => hx (hj.mpr hy))]
  unfold regionOf
  rw [bisectRight_map, bisectRight_map, hwhile _ fun j hj => mem_regionOrder.mp hj]

end

namespace ByteBuffer

variable (buf : ByteBuffer) (offset size : Nat) (delta : Int)

/-- The little endian value of some bytes, which may lie after the end of the data. -/
def fieldAt : Nat := fromBytes ((List.range size).map fun k => buf.byteAt (offset + k))

theorem fieldAt_congr {buf buf' : ByteBuffer} {offset size : Nat}
    (h : ∀ x, offset ≤ x → x < offset + size → buf.byteAt x = buf'.byteAt x) :
    buf.fieldAt offset size = buf'.fieldAt offset size := by
  unfold fieldAt
  congr 1
  apply List.map_congr_left
  intro k hk
  rw [List.mem_range] at hk
  exact h (offset + k) (by omega) (by omega)

theorem fieldAt_eq {buf : ByteBuffer} {offset size : Nat} (h : offset + size ≤ buf.size) :
    buf.fieldAt offset size = fromBytes (buf.bytes.readBytes offset size) := by
  unfold fieldAt ByteMemory.readBytes
  congr 1
  apply List.map_congr_left
  intro k hk
  rw [List.mem_range] at hk
  exact if_pos (by omega)

theorem byteAt_extend_zeros (count x : Nat) : (buf.extend (List.replicate count 0)).byteAt x = buf.byteAt x := by
  unfold byteAt
  rw [extend_size, List.length_replicate]
  by_cases hx : x < buf.size
  · rw [if_pos (by omega), if_pos hx]
    exact ByteMemory.writeBytes_outside (Or.inl hx)
  · rw [if_neg hx]
    split
    next hlt =>
      have hinside := @ByteMemory.writeBytes_inside buf.bytes buf.size (x - buf.size) (List.replicate count 0)
        (by rw [List.length_replicate]; omega)
      rw [Nat.add_sub_cancel' (Nat.le_of_not_lt hx)] at hinside
      show buf.bytes.writeBytes buf.size (List.replicate count 0) x = 0
      rw [hinside]
      simp
    next => rfl

theorem byteAt_setSlice {buf : ByteBuffer} {offset : Nat} {data : List UInt8} (h : offset + data.length ≤ buf.size)
    (x : Nat) : (buf.setSlice offset data).byteAt x =
      if offset ≤ x ∧ x < offset + data.length then data.getD (x - offset) 0 else buf.byteAt x := by
  have hmin : min offset buf.size = offset := by omega
  unfold byteAt
  rw [setSlice_size h]
  unfold setSlice
  rw [hmin]
  show (if x < buf.size then buf.bytes.writeBytes offset data x else 0) = _
  unfold ByteMemory.writeBytes
  by_cases hx : offset ≤ x ∧ x < offset + data.length
  · rw [if_pos hx, if_pos hx, if_pos (by omega)]
  · rw [if_neg hx, if_neg hx]

theorem fieldAt_setSlice {buf : ByteBuffer} {offset : Nat} {data : List UInt8} (h : offset + data.length ≤ buf.size) :
    (buf.setSlice offset data).fieldAt offset data.length = fromBytes data := by
  unfold fieldAt
  congr 1
  apply List.ext_getElem
  · rw [List.length_map, List.length_range]
  · intro k hk hk'
    rw [List.getElem_map, List.getElem_range, byteAt_setSlice h, if_pos (by omega), Nat.add_sub_cancel_left,
      List.getD_eq_getElem?_getD, List.getElem?_eq_getElem hk', Option.getD_some]

theorem relocate_size : (buf.relocate offset size delta).size = max buf.size (offset + size) := by
  unfold relocate
  rw [setSlice_size]
  · rw [extend_size, List.length_replicate]
    omega
  · rw [extend_size, List.length_replicate, toBytes_length]
    omega

theorem byteAt_relocate {x : Nat} (h : x < offset ∨ offset + size ≤ x) :
    (buf.relocate offset size delta).byteAt x = buf.byteAt x := by
  unfold relocate
  rw [byteAt_setSlice, toBytes_length, if_neg (by omega), byteAt_extend_zeros]
  rw [extend_size, List.length_replicate, toBytes_length]
  omega

theorem fieldAt_relocate : (buf.relocate offset size delta).fieldAt offset size =
    ((buf.fieldAt offset size + delta) % 2 ^ (8 * size)).toNat := by
  have hlen : offset + size ≤ (buf.extend (List.replicate (offset + size - buf.size) 0)).size := by
    rw [extend_size, List.length_replicate]
    omega
  have hvalue : fromBytes ((buf.extend (List.replicate (offset + size - buf.size) 0)).bytes.readBytes offset size) =
      buf.fieldAt offset size := by
    rw [← fieldAt_eq hlen]
    exact fieldAt_congr fun x _ _ => byteAt_extend_zeros buf _ x
  have hpow : (256 : Nat) ^ size = 2 ^ (8 * size) := by
    rw [Nat.pow_mul]
  have hlt : ((buf.fieldAt offset size + delta) % 2 ^ (8 * size)).toNat < 256 ^ size := by
    have hpos : (0 : Int) < 2 ^ (8 * size) := Int.pow_pos (by decide)
    have hmod := Int.emod_lt_of_pos (buf.fieldAt offset size + delta) hpos
    have hcast : ((2 ^ (8 * size) : Nat) : Int) = 2 ^ (8 * size) := by
      rw [Int.natCast_pow]
      rfl
    rw [hpow]
    omega
  unfold relocate
  simp only [hvalue]
  have hset := @fieldAt_setSlice (buf.extend (List.replicate (offset + size - buf.size) 0)) offset
    (toBytes size ((buf.fieldAt offset size + delta) % 2 ^ (8 * size)).toNat) (by rw [toBytes_length]; exact hlen)
  rw [toBytes_length, fromBytes_toBytes_of_lt hlt] at hset
  exact hset

end ByteBuffer

end

end Speakeasy
