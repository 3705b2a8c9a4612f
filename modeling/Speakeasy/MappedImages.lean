import Speakeasy.ByteMemory
import Mathlib.Data.List.GetD
import Mathlib.Algebra.Order.Ring.Nat

namespace Speakeasy

/-- The fields of a section header that the layout of an image reads. -/
structure SectionHeader where
  miscVirtualSize : Nat
  virtualAddress : Nat
  sizeOfRawData : Nat
  pointerToRawData : Nat
deriving DecidableEq

/-- A parsed file, with the functions of the parser that the layout calls. -/
structure ParsedPe where
  data : List UInt8
  header : List UInt8
  sections : List SectionHeader
  sectionAlignment : Nat
  fileAlignment : Nat
  sizeOfImage : Nat
  adjustPointerToRawData : Nat → Nat
  adjustSectionAlignment : Nat → Nat → Nat → Nat
  getData : SectionHeader → List UInt8

namespace ParsedPe

variable (pe : ParsedPe)

def rawOffset (s : SectionHeader) : Nat := pe.adjustPointerToRawData s.pointerToRawData

def address (s : SectionHeader) : Nat :=
  pe.adjustSectionAlignment s.virtualAddress pe.sectionAlignment pe.fileAlignment

/-- One turn of the loop of `get_mapped_image`. -/
def mapSection (mapped : List UInt8) (s : SectionHeader) : List UInt8 :=
  if s.miscVirtualSize = 0 ∧ s.sizeOfRawData = 0 then mapped
  else if pe.data.length < pe.rawOffset s ∨ 0xF0000000 ≤ pe.address s then mapped
  else
    (if mapped.length < pe.address s then mapped ++ List.replicate (pe.address s - mapped.length) 0
      else mapped.take (pe.address s)) ++ pe.getData s

def getMappedImage : List UInt8 := (pe.sections.foldl pe.mapSection pe.header).take pe.sizeOfImage

/-- The bytes of a section that the file has. -/
def fileBytes (s : SectionHeader) : List UInt8 := (pe.data.drop (pe.rawOffset s)).take s.sizeOfRawData

/-- A section that the layout keeps: it has a size, and it starts inside the file and below the limit of the parser. -/
structure Keeps (s : SectionHeader) : Prop where
  size : s.miscVirtualSize ≠ 0 ∨ s.sizeOfRawData ≠ 0
  start : pe.rawOffset s ≤ pe.data.length
  limit : pe.address s < 0xF0000000

/-- The last section that is kept and starts at or below an address. -/
structure LastAt (sections : List SectionHeader) (rva : Nat) (s : SectionHeader) : Prop where
  keeps : pe.Keeps s
  below : pe.address s ≤ rva
  last : ∃ before after, sections = before ++ s :: after ∧ ∀ t ∈ after, pe.Keeps t → rva < pe.address t

/-- The byte of an image laid out by the section table. -/
def LaidOut (sections : List SectionHeader) (rva : Nat) (byte : UInt8) : Prop :=
  (∃ s, pe.LastAt sections rva s ∧ byte = (pe.fileBytes s).getD (rva - pe.address s) 0) ∨
    (∀ s ∈ sections, pe.Keeps s → rva < pe.address s) ∧ byte = pe.header.getD rva 0

variable {pe} {sections : List SectionHeader} {s : SectionHeader} {mapped : List UInt8}

theorem mapSection_of_not_keeps (h : ¬pe.Keeps s) (mapped : List UInt8) : pe.mapSection mapped s = mapped := by
  unfold mapSection
  split
  next => rfl
  next hsize =>
    split
    next => rfl
    next hstart => exact absurd ⟨by omega, by omega, by omega⟩ h

/-- A kept section leaves what lies below it, and behind it there is nothing but its own bytes. -/
theorem mapSection_getD (h : pe.Keeps s) (mapped : List UInt8) (rva : Nat) :
    (pe.mapSection mapped s).getD rva 0 =
      if rva < pe.address s then mapped.getD rva 0 else (pe.getData s).getD (rva - pe.address s) 0 := by
  have hsize := h.size
  have hstart := h.start
  have hlimit := h.limit
  have hfront : ∀ front : List UInt8, front.length = pe.address s →
      (∀ r < pe.address s, front.getD r 0 = mapped.getD r 0) →
      (front ++ pe.getData s).getD rva 0 =
        if rva < pe.address s then mapped.getD rva 0 else (pe.getData s).getD (rva - pe.address s) 0 := by
    intro front hlen hsame
    split
    next hlt => rw [List.getD_append _ _ _ _ (by omega), hsame rva hlt]
    next hge => rw [List.getD_append_right _ _ _ _ (by omega), hlen]
  rw [mapSection, if_neg (by omega), if_neg (by omega)]
  split
  next hshort =>
    apply hfront
    · rw [List.length_append, List.length_replicate]
      omega
    · intro r hr
      by_cases hin : r < mapped.length
      · rw [List.getD_append _ _ _ _ hin]
      · rw [List.getD_append_right _ _ _ _ (by omega), List.getD_eq_default _ _ (show mapped.length ≤ r by omega),
          List.getD_eq_getElem _ _ (by rw [List.length_replicate]; omega), List.getElem_replicate]
  next hlong =>
    apply hfront
    · exact List.length_take_of_le (by omega)
    · intro r hr
      rw [List.getD_eq_getElem?_getD, List.getElem?_take_of_lt hr, List.getD_eq_getElem?_getD]

/-- What one turn of the loop keeps. -/
theorem LaidOut.mapSection {rva : Nat} (h : pe.LaidOut sections rva (mapped.getD rva 0))
    (hdata : pe.getData s = pe.fileBytes s) :
    pe.LaidOut (sections ++ [s]) rva ((pe.mapSection mapped s).getD rva 0) := by
  by_cases hkeeps : pe.Keeps s
  · rw [mapSection_getD hkeeps, hdata]
    by_cases hlt : rva < pe.address s
    · rw [if_pos hlt]
      rcases h with ⟨t, ht, hbyte⟩ | ⟨hnone, hbyte⟩
      · obtain ⟨before, after, hsplit, hlater⟩ := ht.last
        refine Or.inl ⟨t, ⟨ht.keeps, ht.below, before, after ++ [s], by rw [hsplit]; simp, ?_⟩, hbyte⟩
        intro u hu hukeeps
        rcases List.mem_append.mp hu with hu | hu
        · exact hlater u hu hukeeps
        · rw [List.mem_singleton.mp hu]
          exact hlt
      · refine Or.inr ⟨?_, hbyte⟩
        intro u hu hukeeps
        rcases List.mem_append.mp hu with hu | hu
        · exact hnone u hu hukeeps
        · rw [List.mem_singleton.mp hu]
          exact hlt
    · rw [if_neg hlt]
      exact Or.inl ⟨s, ⟨hkeeps, Nat.le_of_not_lt hlt, sections, [], rfl, fun _ hu => absurd hu List.not_mem_nil⟩, rfl⟩
  · rw [mapSection_of_not_keeps hkeeps]
    rcases h with ⟨t, ht, hbyte⟩ | ⟨hnone, hbyte⟩
    · obtain ⟨before, after, hsplit, hlater⟩ := ht.last
      refine Or.inl ⟨t, ⟨ht.keeps, ht.below, before, after ++ [s], by rw [hsplit]; simp, ?_⟩, hbyte⟩
      intro u hu hukeeps
      rcases List.mem_append.mp hu with hu | hu
      · exact hlater u hu hukeeps
      · exact absurd (List.mem_singleton.mp hu ▸ hukeeps) hkeeps
    · refine Or.inr ⟨?_, hbyte⟩
      intro u hu hukeeps
      rcases List.mem_append.mp hu with hu | hu
      · exact hnone u hu hukeeps
      · exact absurd (List.mem_singleton.mp hu ▸ hukeeps) hkeeps

/-- What the whole loop keeps. -/
theorem LaidOut.foldl {rest : List SectionHeader} {rva : Nat} (h : pe.LaidOut sections rva (mapped.getD rva 0))
    (hdata : ∀ s ∈ rest, pe.getData s = pe.fileBytes s) :
    pe.LaidOut (sections ++ rest) rva ((rest.foldl pe.mapSection mapped).getD rva 0) := by
  induction rest generalizing sections mapped with
  | nil =>
    rw [List.append_nil]
    exact h
  | cons s rest ih =>
    have hnext := h.mapSection (hdata s List.mem_cons_self)
    have hall := ih hnext fun t ht => hdata t (List.mem_cons_of_mem _ ht)
    rwa [List.append_assoc] at hall

/-- The image has no more bytes than `SizeOfImage`, each of them is the one that the section table puts there, and a
section with data that starts inside the file and below the limit of the parser has its place. -/
theorem getMappedImage_law (pe : ParsedPe) (hdata : ∀ s ∈ pe.sections, pe.getData s = pe.fileBytes s) :
    pe.getMappedImage.length ≤ pe.sizeOfImage ∧
      (∀ rva < pe.sizeOfImage, pe.LaidOut pe.sections rva (pe.getMappedImage.getD rva 0)) ∧
      ∀ s ∈ pe.sections, s.sizeOfRawData ≠ 0 → pe.rawOffset s < pe.data.length → pe.address s < 0xF0000000 →
        pe.Keeps s := by
  refine ⟨List.length_take_le _ _, ?_, ?_⟩
  · intro rva hrva
    have hstart : pe.LaidOut [] rva (pe.header.getD rva 0) := Or.inr ⟨fun _ hs => absurd hs List.not_mem_nil, rfl⟩
    have hrun := hstart.foldl hdata
    rwa [List.nil_append, List.getD_eq_getElem?_getD, ← List.getElem?_take_of_lt hrva, ← List.getD_eq_getElem?_getD]
      at hrun
  · intro s hs hsize hstart hlimit
    exact ⟨Or.inr hsize, Nat.le_of_lt hstart, hlimit⟩

/-- The headers of a 32-bit file: two sections that overlap in the image, and one at the limit of the parser. -/
def overlapSections : List SectionHeader :=
  [⟨0x400, 0x200, 0x400, 0x200⟩, ⟨0x200, 0x400, 0x200, 0x600⟩, ⟨0x200, 0xF0000000, 0x200, 0x600⟩]

def sectionTable (sections : List SectionHeader) : List UInt8 :=
  sections.flatMap fun s => [0x2E, 0x73, 0, 0, 0, 0, 0, 0] ++
    [s.miscVirtualSize, s.virtualAddress, s.sizeOfRawData, s.pointerToRawData].flatMap (toBytes 4) ++
    List.replicate 12 0 ++ toBytes 4 0xE0000020

/-- The DOS header, the signature, the file header, the optional header with empty directories and the sections. -/
def overlapHeader : List UInt8 :=
  [0x4D, 0x5A] ++ List.replicate 58 0 ++ toBytes 4 0x40 ++ [0x50, 0x45, 0, 0] ++
    [0x14C, 3].flatMap (toBytes 2) ++ List.replicate 12 0 ++ [0xE0, 0x102].flatMap (toBytes 2) ++
    toBytes 2 0x10B ++ List.replicate 14 0 ++ [0x200, 0x200, 0x400, 0x400000, 0x200, 0x200].flatMap (toBytes 4) ++
    [4, 0, 0, 0, 4, 0].flatMap (toBytes 2) ++ [0, 0xF0000200, 0x200, 0].flatMap (toBytes 4) ++
    [2, 0].flatMap (toBytes 2) ++ List.replicate 20 0 ++ toBytes 4 16 ++ List.replicate 128 0 ++
    sectionTable overlapSections ++ List.replicate 80 0

def overlapData : List UInt8 := overlapHeader ++ List.replicate 0x400 0xAA ++ List.replicate 0x200 0xBB

def overlapPe : ParsedPe where
  data := overlapData
  header := overlapData.take 0x200
  sections := overlapSections
  sectionAlignment := 0x200
  fileAlignment := 0x200
  sizeOfImage := 0xF0000200
  adjustPointerToRawData p := p / 0x200 * 0x200
  adjustSectionAlignment rva sectionAlignment fileAlignment :=
    let alignment := if sectionAlignment < 0x1000 then fileAlignment else sectionAlignment
    rva / alignment * alignment
  getData s := (overlapData.drop (s.pointerToRawData / 0x200 * 0x200)).take s.sizeOfRawData

/-- The first section ends where the second one starts, and the header stands before both. -/
theorem getMappedImage_law_overlap : overlapPe.LaidOut overlapSections 0x3FF 0xAA ∧
    overlapPe.LaidOut overlapSections 0x400 0xBB ∧ overlapPe.LaidOut overlapSections 0x40 0x50 := by
  obtain ⟨-, himage, -⟩ := getMappedImage_law overlapPe fun _ _ => rfl
  have htext : overlapPe.getMappedImage.getD 0x3FF 0 = 0xAA := by decide +kernel
  have hdata : overlapPe.getMappedImage.getD 0x400 0 = 0xBB := by decide +kernel
  have hheader : overlapPe.getMappedImage.getD 0x40 0 = 0x50 := by decide +kernel
  exact ⟨htext ▸ himage 0x3FF (by decide), hdata ▸ himage 0x400 (by decide), hheader ▸ himage 0x40 (by decide)⟩

/-- The data of the last section starts inside the file and its place is inside the image, which has none of it. -/
theorem getMappedImage_highSection :
    (∀ s ∈ overlapPe.sections, overlapPe.getData s = overlapPe.fileBytes s) ∧
      ∃ s ∈ overlapPe.sections, overlapPe.rawOffset s < overlapPe.data.length ∧
        overlapPe.address s = 0xF0000000 ∧ 0xF0000000 < overlapPe.sizeOfImage ∧
        (overlapPe.fileBytes s).getD 0 0 = 0xBB ∧ overlapPe.getMappedImage.getD 0xF0000000 0 = 0 := by
  refine ⟨fun _ _ => rfl, ⟨0x200, 0xF0000000, 0x200, 0x600⟩, ?_, ?_, ?_, ?_, ?_, ?_⟩
  · decide
  · decide +kernel
  · decide
  · decide
  · decide +kernel
  · decide +kernel

end ParsedPe

end Speakeasy
