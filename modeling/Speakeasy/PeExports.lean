import Speakeasy.ByteMemory
import Mathlib.Data.List.TakeWhile

namespace Speakeasy

/-- An export as the tables of a mapped image give it. -/
structure PeExport where
  name : Option (List UInt8)
  ordinal : Nat
  rva : Nat
  forwarder : Option (List UInt8)
deriving DecidableEq, Repr

/-- The export directory, and its range in the image. -/
structure PeExportDirectory where
  rva : Nat
  size : Nat
  ordinalBase : Nat
  functionCount : Nat
  nameCount : Nat
  addressTable : Nat
  nameTable : Nat
  ordinalTable : Nat
deriving DecidableEq, Repr

namespace ByteMemory

def readU16 (m : ByteMemory) (a : Nat) : Nat := m.readInt a 2
def readU32 (m : ByteMemory) (a : Nat) : Nat := m.readInt a 4

/-- The bytes before the first zero, of at most `limit`. -/
def cString (m : ByteMemory) (a limit : Nat) : List UInt8 := (m.readBytes a limit).takeWhile (· ≠ 0)

theorem zero_not_mem_cString (m : ByteMemory) (a limit : Nat) : 0 ∉ m.cString a limit := by
  intro h
  have := List.mem_takeWhile_imp h
  simp at this

theorem readBytes_add (m : ByteMemory) (a x y : Nat) :
    m.readBytes a (x + y) = m.readBytes a x ++ m.readBytes (a + x) y := by
  simp only [readBytes, List.range_add, List.map_append, List.map_map, Function.comp_def, Nat.add_assoc]

/-- A string that ends in a zero is read up to it. -/
theorem cString_eq {m : ByteMemory} {a limit : Nat} {bs : List UInt8} (h : m.Holds a (bs ++ [0]))
    (hzero : 0 ∉ bs) (hlimit : bs.length + 1 ≤ limit) : m.cString a limit = bs := by
  obtain ⟨rest, rfl⟩ := Nat.exists_eq_add_of_le hlimit
  have hread : m.readBytes a (bs.length + 1) = bs ++ [0] := by
    have := h
    unfold Holds at this
    rwa [List.length_append, List.length_singleton] at this
  rw [cString, readBytes_add, hread, List.append_assoc, List.takeWhile_append_of_pos]
  · simp
  · intro b hb
    apply decide_eq_true
    rintro rfl
    exact hzero hb

/-- The entry of the export directory in the optional header, whose magic gives its place. -/
def exportDirectoryEntry (m : ByteMemory) : Nat :=
  let opt := m.readU32 0x3C + 24
  opt + if m.readU16 opt = 0x20B then 112 else 96

def exportDirectory (m : ByteMemory) : Option PeExportDirectory :=
  let rva := m.readU32 m.exportDirectoryEntry
  if rva = 0 then none
  else some {
    rva := rva
    size := m.readU32 (m.exportDirectoryEntry + 4)
    ordinalBase := m.readU32 (rva + 16)
    functionCount := m.readU32 (rva + 20)
    nameCount := m.readU32 (rva + 24)
    addressTable := m.readU32 (rva + 28)
    nameTable := m.readU32 (rva + 32)
    ordinalTable := m.readU32 (rva + 36) }

end ByteMemory

namespace PeExportDirectory

def addressAt (d : PeExportDirectory) (m : ByteMemory) (i : Nat) : Nat := m.readU32 (d.addressTable + 4 * i)

/-- An address inside the directory is the one of a forwarder string. -/
def forwarderAt (d : PeExportDirectory) (m : ByteMemory) (limit rva : Nat) : Option (List UInt8) :=
  if d.rva ≤ rva ∧ rva < d.rva + d.size then some (m.cString rva limit) else none

def exportAt (d : PeExportDirectory) (m : ByteMemory) (limit : Nat) (name : Option (List UInt8))
    (i : Nat) : PeExport where
  name := name
  ordinal := d.ordinalBase + i
  rva := d.addressAt m i
  forwarder := d.forwarderAt m limit (d.addressAt m i)

def byName (d : PeExportDirectory) (m : ByteMemory) (limit : Nat) : List PeExport :=
  (List.range d.nameCount).map fun i =>
    d.exportAt m limit (some (m.cString (m.readU32 (d.nameTable + 4 * i)) limit))
      (m.readU16 (d.ordinalTable + 2 * i))

/-- The entries of the address table, except the gaps. -/
def byOrdinal (d : PeExportDirectory) (m : ByteMemory) (limit : Nat) : List PeExport :=
  ((List.range d.functionCount).filter fun i => d.addressAt m i ≠ 0).map (d.exportAt m limit none)

theorem zero_not_mem_byName {d : PeExportDirectory} {m : ByteMemory} {limit : Nat} {x : PeExport}
    (hx : x ∈ d.byName m limit) {bs : List UInt8} (hbs : x.name = some bs) : 0 ∉ bs := by
  obtain ⟨i, -, rfl⟩ := List.mem_map.mp hx
  cases hbs
  exact m.zero_not_mem_cString _ limit

theorem zero_not_mem_forwarderAt {d : PeExportDirectory} {m : ByteMemory} {limit rva : Nat}
    {bs : List UInt8} (hbs : d.forwarderAt m limit rva = some bs) : 0 ∉ bs := by
  unfold forwarderAt at hbs
  split at hbs
  · cases hbs
    exact m.zero_not_mem_cString _ limit
  · cases hbs

end PeExportDirectory

end Speakeasy
