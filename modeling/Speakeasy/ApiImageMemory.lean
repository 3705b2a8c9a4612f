import Speakeasy.ExportTables
import Speakeasy.PeExports

namespace Speakeasy

section

open ByteBuffer

namespace LoadedImage

/-- The bytes of the image when its regions are mapped. -/
def memory (image : LoadedImage) : ByteMemory := fun a =>
  match image.regions.find? fun r => decide (r.base ≤ a ∧ a < r.base + r.data.size) with
  | some r => r.data.bytes (a - r.base)
  | none => 0

def exportDirectory (image : LoadedImage) : Option PeExportDirectory := image.memory.exportDirectory

def byName (image : LoadedImage) : List PeExport :=
  (image.exportDirectory.map fun d => d.byName image.memory image.imageSize).getD []

def byOrdinal (image : LoadedImage) : List PeExport :=
  (image.exportDirectory.map fun d => d.byOrdinal image.memory image.imageSize).getD []

end LoadedImage

/-- The parts that the image is put together from. -/
structure ImageParts where
  layout : ExportLayout
  strings : ExportStrings
  rvas : List (Nat × Nat)
  text : ByteBuffer
  edata : ByteBuffer
  headers : ByteBuffer

namespace ImageParts

def dataRva (p : ImageParts) : Nat := p.layout.edataRva + p.strings.edata.size

def sections (p : ImageParts) : ImageSections where
  text := p.text
  edata := p.edata
  data := ByteBuffer.filled p.layout.dataSize 0
  dyn := ByteBuffer.filled apiDynamicSize 0xcc
  edataRva := p.layout.edataRva
  dataRva := p.dataRva
  dynRva := p.dataRva + p.layout.dataSize

def imageSize (p : ImageParts) : Nat := p.dataRva + p.layout.dataSize + apiDynamicSize

def tables (p : ImageParts) : ExportTables := ⟨p.layout, p.strings, p.rvas, p.edata⟩

/-- The image has these parts. -/
structure Of (p : ImageParts) (image : LoadedImage) : Prop where
  strings : exportStrings p.layout image.name = .ok p.strings
  placed : placeTargets p.dataRva p.strings.forwardRvas 0 0 (ByteBuffer.filled p.layout.textSize 0xcc)
    (sortedTargets p.layout.targets) = (p.rvas, p.text)
  edata : p.strings.edata.packAll (edataWrites p.layout p.strings p.rvas) = some p.edata
  headers : (ByteBuffer.filled 0x1000 0).packAll
    (headerWrites image.arch image.imageBase p.imageSize p.sections ++
      directoryWrites image.arch p.layout p.strings ++ sectionWrites image.arch p.sections) =
        some p.headers
  size : image.imageSize = p.imageSize
  regions : image.regions = ⟨0, p.headers, "headers".toList, permMemRead⟩ ::
    p.sections.contents.map fun x => ⟨x.2.1, x.2.2.1, x.1, x.2.2.2.1⟩
  exports : image.exports = p.layout.assigned.map fun x =>
    ⟨x.1.name, (p.rvas.lookup x.2).getD 0, x.2, x.1.kind, x.1.forwarder⟩

theorem buildImage_parts {name emuPath : PyStr} {arch : Arch} {base : Nat} {l : ExportLayout}
    {image : LoadedImage} (h : buildImage name arch base emuPath l = .ok image) :
    ∃ p : ImageParts, p.layout = l ∧ p.Of image := by
  unfold buildImage at h
  cases hstrings : exportStrings l name with
  | error e =>
    rw [hstrings] at h
    cases h
  | ok strings =>
    rw [hstrings] at h
    simp only at h
    split at h
    next => cases h
    next =>
      cases hplaced : placeTargets (l.edataRva + strings.edata.size) strings.forwardRvas 0 0
          (ByteBuffer.filled l.textSize 0xcc) (sortedTargets l.targets) with
      | mk rvas text =>
        rw [hplaced] at h
        simp only at h
        cases hedata : strings.edata.packAll (edataWrites l strings rvas) with
        | none =>
          rw [hedata] at h
          cases h
        | some edata =>
          rw [hedata] at h
          simp only at h
          split at h
          next => cases h
          next headers hheaders =>
            cases h
            exact ⟨⟨l, strings, rvas, text, edata, headers⟩, rfl, hstrings, hplaced, hedata,
              hheaders, rfl, rfl, rfl⟩

variable {p : ImageParts} {image : LoadedImage}

theorem Of.text_size (h : p.Of image) : p.text.size = p.layout.textSize := by
  have hfit := p.layout.textSize_ge
  rw [← Nat.zero_add ((sortedTargets p.layout.targets).countP isSlotted)] at hfit
  exact (placeTargets_text h.placed hfit).1

theorem Of.headers_size (h : p.Of image) : p.headers.size = 0x1000 := by
  rw [(packAll_spec h.headers).1]
  rfl

theorem Of.edata_size (h : p.Of image) : p.edata.size = p.strings.edata.size := by
  rw [(packAll_spec h.edata).1]

theorem Of.memory_headers (h : p.Of image) {a : Nat} (ha : a < 0x1000) :
    image.memory a = p.headers.bytes a := by
  rw [LoadedImage.memory, h.regions, List.find?_cons_of_pos]
  · rfl
  · exact decide_eq_true ⟨Nat.zero_le a, by rw [h.headers_size]; omega⟩

theorem Of.memory_edata (h : p.Of image) {a : Nat} (hle : p.layout.edataRva ≤ a)
    (hlt : a < p.layout.edataRva + p.edata.size) :
    image.memory a = p.edata.bytes (a - p.layout.edataRva) := by
  have htext := h.text_size
  have hrva : p.layout.edataRva = 0x1000 + p.layout.textSize := rfl
  rw [LoadedImage.memory, h.regions, List.find?_cons_of_neg]
  · simp only [ImageSections.contents, List.map_cons]
    rw [List.find?_cons_of_neg, List.find?_cons_of_pos]
    · rfl
    · exact decide_eq_true ⟨hle, hlt⟩
    · have hout : ¬(0x1000 ≤ a ∧ a < 0x1000 + p.text.size) := by omega
      rw [decide_eq_true_eq]
      exact hout
  · simp only [h.headers_size, decide_eq_true_eq]
    omega

/-- What the section holds is in the memory, at the RVA of the section. -/
theorem Of.holds_edata (h : p.Of image) {k : Nat} {bs : List UInt8} (hb : p.edata.bytes.Holds k bs)
    (hk : k + bs.length ≤ p.edata.size) : image.memory.Holds (p.layout.edataRva + k) bs := by
  have hshift : image.memory.readBytes (p.layout.edataRva + k) bs.length =
      p.edata.bytes.readBytes k bs.length := by
    apply List.map_congr_left
    intro i hi
    rw [List.mem_range] at hi
    rw [h.memory_edata (by omega) (by omega)]
    congr 1
    omega
  exact hshift.trans hb

theorem Of.readInt_edata (h : p.Of image) {k width : Nat} (hk : k + width ≤ p.edata.size) :
    image.memory.readInt (p.layout.edataRva + k) width = p.edata.bytes.readInt k width := by
  have hlen := ByteMemory.readBytes_length p.edata.bytes k width
  have hholds : p.edata.bytes.Holds k (p.edata.bytes.readBytes k width) := by
    unfold ByteMemory.Holds
    rw [hlen]
  have := h.holds_edata hholds (by omega)
  unfold ByteMemory.Holds at this
  rw [hlen] at this
  rw [ByteMemory.readInt, this]
  rfl

theorem Of.readInt_headers (h : p.Of image) {a width : Nat} (ha : a + width ≤ 0x1000) :
    image.memory.readInt a width = p.headers.bytes.readInt a width := by
  unfold ByteMemory.readInt
  congr 1
  apply ByteMemory.readBytes_congr
  intro x _ hx
  exact h.memory_headers (by omega)

end ImageParts

/-- The offsets of the writes, with their lengths. -/
def places (ws : List (Nat × List UInt8)) : List (Nat × Nat) := ws.map fun w => (w.1, w.2.length)

theorem apart_of_places {ws : List (Nat × List UInt8)} {a n : Nat}
    (h : ∀ x ∈ places ws, a + n ≤ x.1 ∨ x.1 + x.2 ≤ a) :
    ∀ w ∈ ws, a + n ≤ w.1 ∨ w.1 + w.2.length ≤ a := fun _ hw => h _ (List.mem_map_of_mem hw)

theorem headerWrites_places (arch : Arch) (base imageSize : Nat) (s : ImageSections) :
    places (packed (headerWrites arch base imageSize s)) =
      [(0, 2), (0x3C, 4), (0x80, 4), (0x84, 20), (0x98, 24), (0xB0, 8), (0xB8, 20), (0xCC, 20),
        (0xE0, match arch with | .amd64 => 40 | .x86 => 24)] := by
  cases arch <;> rfl

theorem sectionWrites_places (arch : Arch) (s : ImageSections) :
    places (packed (sectionWrites arch s)) =
      (List.range 4).map fun i => (0x98 + optionalHeaderSize arch + i * 40, 40) := by
  cases arch <;> rfl

end

section

open ByteBuffer

/-- A write that no later one overlaps. -/
theorem holds_writeAll_getElem {m : ByteMemory} {ws : List (Nat × List UInt8)} {n a : Nat}
    {bs : List UInt8} (hn : ws[n]? = some (a, bs))
    (h : ∀ x ∈ (places ws).drop (n + 1), a + bs.length ≤ x.1 ∨ x.1 + x.2 ≤ a) :
    (m.writeAll ws).Holds a bs := by
  obtain ⟨hlt, hget⟩ := List.getElem?_eq_some_iff.mp hn
  have hsplit : ws = ws.take n ++ (a, bs) :: ws.drop (n + 1) := by
    rw [← hget, ← List.drop_eq_getElem_cons hlt, List.take_append_drop]
  have hlater : ∀ w ∈ ws.drop (n + 1), a + bs.length ≤ w.1 ∨ w.1 + w.2.length ≤ a := by
    apply apart_of_places
    rwa [places, List.map_drop]
  rw [hsplit]
  exact ByteMemory.holds_writeAll_append _ hlater

namespace ImageParts

variable {p : ImageParts} {image : LoadedImage}

/-- The writes of the headers, with their bytes. -/
def headerBytes (p : ImageParts) (image : LoadedImage) : List (Nat × List UInt8) :=
  packed (headerWrites image.arch image.imageBase p.imageSize p.sections ++
    directoryWrites image.arch p.layout p.strings ++ sectionWrites image.arch p.sections)

theorem Of.headers_eq (h : p.Of image) : p.headers.bytes =
    (ByteBuffer.filled 0x1000 0).bytes.writeAll (p.headerBytes image) := by
  rw [(packAll_spec h.headers).1]
  rfl

def directoryPlaces (arch : Arch) (l : ExportLayout) : List (Nat × Nat) :=
  if l.assigned = [] then [] else [(directoryOffset arch, 8)]

theorem headerBytes_places (p : ImageParts) (image : LoadedImage) :
    places (p.headerBytes image) =
      [(0, 2), (0x3C, 4), (0x80, 4), (0x84, 20), (0x98, 24), (0xB0, 8), (0xB8, 20), (0xCC, 20),
        (0xE0, match image.arch with | .amd64 => 40 | .x86 => 24)] ++
      (directoryPlaces image.arch p.layout ++
        (List.range 4).map fun i => (0x98 + optionalHeaderSize image.arch + i * 40, 40)) := by
  have hdirectory : places (packed (directoryWrites image.arch p.layout p.strings)) =
      directoryPlaces image.arch p.layout := by
    unfold directoryWrites directoryPlaces
    by_cases hne : p.layout.assigned = []
    · rw [if_pos hne, if_pos hne]
      rfl
    · rw [if_neg hne, if_neg hne]
      rfl
  unfold headerBytes
  rw [packed_append, packed_append, List.append_assoc]
  simp only [places, List.map_append] at hdirectory ⊢
  rw [hdirectory]
  exact congrArg₂ _ (headerWrites_places ..) (congrArg _ (sectionWrites_places ..))

theorem directoryPlaces_cases (arch : Arch) (l : ExportLayout) :
    directoryPlaces arch l = [] ∨ directoryPlaces arch l = [(directoryOffset arch, 8)] := by
  unfold directoryPlaces
  by_cases hne : l.assigned = []
  · exact Or.inl (if_pos hne)
  · exact Or.inr (if_neg hne)

theorem Of.holds_headers (h : p.Of image) (n size : Nat) {a : Nat} {bs : List UInt8}
    (hn : (p.headerBytes image)[n]? = some (a, bs)) (hsize : bs.length = size)
    (hlater : ∀ x ∈ (places (p.headerBytes image)).drop (n + 1),
      a + size ≤ x.1 ∨ x.1 + x.2 ≤ a) : p.headers.bytes.Holds a bs := by
  subst hsize
  rw [h.headers_eq]
  exact holds_writeAll_getElem hn hlater

theorem Of.lfanew (h : p.Of image) : image.memory.readU32 0x3C = 0x80 := by
  have hholds : p.headers.bytes.Holds 0x3C (packFields [.int 4 0x80]) := by
    apply h.holds_headers 1 4 rfl rfl
    rw [headerBytes_places]
    rcases directoryPlaces_cases image.arch p.layout with hd | hd <;> rw [hd] <;>
      cases image.arch <;> decide
  rw [ByteMemory.readU32, h.readInt_headers (by decide)]
  exact hholds.field [] (by decide)

theorem Of.magic (h : p.Of image) : image.memory.readU16 0x98 =
    match image.arch with | .amd64 => 0x20B | .x86 => 0x10B := by
  have hholds : p.headers.bytes.Holds 0x98 (packFields
      ([] ++ .int 2 (match image.arch with | .amd64 => 0x20B | .x86 => 0x10B) ::
        [.int 1 0, .int 1 0, .int 4 (p.text.size + apiDynamicSize),
          .int 4 (p.edata.size + p.layout.dataSize), .int 4 0, .int 4 0,
          .int 4 ExportLayout.textRva])) := by
    apply h.holds_headers 4 24
    · unfold headerBytes
      cases image.arch <;> rfl
    · rfl
    · rw [headerBytes_places]
      rcases directoryPlaces_cases image.arch p.layout with hd | hd <;> rw [hd] <;>
        cases image.arch <;> decide
  rw [ByteMemory.readU16, h.readInt_headers (by decide)]
  have := hholds.field [] (by cases image.arch <;> decide)
  exact this

theorem Of.exportDirectoryEntry (h : p.Of image) :
    image.memory.exportDirectoryEntry = directoryOffset image.arch := by
  unfold ByteMemory.exportDirectoryEntry
  rw [h.lfanew]
  change 0x98 + (if image.memory.readU16 0x98 = 0x20B then 112 else 96) = _
  rw [h.magic]
  cases image.arch <;> rfl

/-- The entry of the directory, whose write comes after the ones of the headers. -/
theorem Of.directory_entry (h : p.Of image) (hne : p.layout.assigned ≠ []) :
    p.headers.bytes.Holds (directoryOffset image.arch)
      (packFields [.int 4 p.layout.edataRva, .int 4 p.strings.exportSize]) := by
  apply h.holds_headers 9 8
  · unfold headerBytes directoryWrites
    rw [if_neg hne]
    cases image.arch <;> rfl
  · rfl
  · rw [headerBytes_places, directoryPlaces, if_neg hne]
    cases image.arch <;> decide

theorem Of.directory_entry_fits (h : p.Of image) (hne : p.layout.assigned ≠ []) :
    p.layout.edataRva < 256 ^ 4 ∧ p.strings.exportSize < 256 ^ 4 := by
  have hfits := ((packAll_spec h.headers).2 (directoryOffset image.arch,
    [.int 4 p.layout.edataRva, .int 4 p.strings.exportSize]) (by
      apply List.mem_append_left
      apply List.mem_append_right
      rw [directoryWrites, if_neg hne]
      exact List.mem_cons_self)).1
  exact ⟨hfits _ List.mem_cons_self, hfits _ (List.mem_cons_of_mem _ List.mem_cons_self)⟩

theorem Of.directory_rva (h : p.Of image) (hne : p.layout.assigned ≠ []) :
    image.memory.readU32 (directoryOffset image.arch) = p.layout.edataRva ∧
      image.memory.readU32 (directoryOffset image.arch + 4) = p.strings.exportSize := by
  have hholds := h.directory_entry hne
  have hfits := h.directory_entry_fits hne
  unfold ByteMemory.readU32
  rw [h.readInt_headers (by cases image.arch <;> decide),
    h.readInt_headers (by cases image.arch <;> decide)]
  exact ⟨hholds.field [] hfits.1, hholds.field [.int 4 p.layout.edataRva] hfits.2⟩

/-- An image without exports has no export directory. -/
theorem Of.directory_none (h : p.Of image) (hempty : p.layout.assigned = []) :
    image.exportDirectory = none := by
  have hzero : p.headers.bytes.readBytes (directoryOffset image.arch) 4 = List.replicate 4 0 := by
    rw [h.headers_eq, ByteMemory.readBytes_writeAll_of_apart, readBytes_filled]
    apply apart_of_places
    rw [headerBytes_places, directoryPlaces, if_pos hempty]
    cases image.arch <;> decide
  unfold LoadedImage.exportDirectory ByteMemory.exportDirectory
  rw [h.exportDirectoryEntry, ByteMemory.readU32,
    h.readInt_headers (by cases image.arch <;> decide), ByteMemory.readInt, hzero]
  rfl

end ImageParts

end

section

open ByteBuffer ExportLayout

theorem mem_lookup_of_pairwise {rvas : List (Nat × Nat)} (h : rvas.Pairwise fun x y => x.1 ≠ y.1)
    {r : Nat × Nat} (hr : r ∈ rvas) : rvas.lookup r.1 = some r.2 := by
  induction rvas with
  | nil => cases hr
  | cons x rvas ih =>
    obtain ⟨hx, hp⟩ := List.pairwise_cons.mp h
    rcases List.mem_cons.mp hr with rfl | hr
    · exact List.lookup_cons_self
    · have hne : (r.1 == x.1) = false := by
        rw [beq_eq_false_iff_ne]
        exact (hx r hr).symm
      rw [List.lookup_cons, hne]
      exact ih hp hr

theorem forall₂_left {α β : Type} {R S : α → β → Prop} {xs : List α} {ys : List β}
    (h : List.Forall₂ R xs ys) (h' : List.Forall₂ S xs ys) {x : α} (hx : x ∈ xs) :
    ∃ y ∈ ys, R x y ∧ S x y := by
  obtain ⟨n, hn, rfl⟩ := List.mem_iff_getElem.mp hx
  have hn' : n < ys.length := h.length_eq ▸ hn
  exact ⟨ys[n], List.getElem_mem hn', h.get hn hn', h'.get hn hn'⟩

namespace ImageParts

variable {p : ImageParts} {image : LoadedImage} {specs : List ApiExportSpec}

theorem Of.rvas_distinct (h : p.Of image) : p.rvas.Pairwise fun x y => x.1 ≠ y.1 := by
  have hall := placeTargets_placed h.placed
  have hfst : p.rvas.map Prod.fst = (sortedTargets p.layout.targets).map Prod.fst := by
    apply List.ext_getElem
    · rw [List.length_map, List.length_map, hall.length_eq]
    · intro i hi hi'
      rw [List.getElem_map, List.getElem_map]
      rw [List.length_map] at hi hi'
      exact (hall.get hi' hi).1
  have hp := List.pairwise_map.mpr (sortedTargets_pairwise p.layout.targets)
  rw [← hfst] at hp
  exact List.pairwise_map.mp hp

/-- Each RVA is the one of an export. -/
theorem Of.rva_assigned (h : p.Of image) (hl : p.layout.Valid specs) {r : Nat × Nat}
    (hr : r ∈ p.rvas) : ∃ x ∈ p.layout.assigned, x.2 = r.1 := by
  have hall := (placeTargets_placed h.placed).flip
  obtain ⟨t, ht, hplaced, -⟩ := forall₂_left hall hall hr
  have := hl.target_mem t.1 t.2 (mem_sortedTargets.mp ht)
  exact ⟨_, this, hplaced.1.symm⟩

/-- The RVA of an export, which has the kind of the target. -/
theorem Of.placed_of_assigned (h : p.Of image) (hl : p.layout.Valid specs) {x : ApiExportSpec × Nat}
    (hx : x ∈ p.layout.assigned) : ∃ r ∈ p.rvas, r.1 = x.2 ∧ (p.rvas.lookup x.2).getD 0 = r.2 ∧
      PlacedAt p.dataRva p.strings.forwardRvas 0 (x.2, x.1) r ∧
      (x.1.kind = .function → x.1.forwarder = none → ∃ j, j * apiSlotSize + apiSlotSize ≤
        p.layout.textSize ∧ r.2 = textRva + j * apiSlotSize + apiEntryOffset) := by
  obtain ⟨s, hs, hkind, hforwarder⟩ := hl.targeted x hx
  have hmem : (x.2, s) ∈ sortedTargets p.layout.targets := mem_sortedTargets.mpr hs
  have hfit := p.layout.textSize_ge
  rw [← Nat.zero_add ((sortedTargets p.layout.targets).countP isSlotted)] at hfit
  have htext := (placeTargets_text h.placed hfit).2
  obtain ⟨r, hr, hplaced, hslot⟩ := forall₂_left (placeTargets_placed h.placed) htext hmem
  have hfst : r.1 = x.2 := hplaced.1
  refine ⟨r, hr, hfst, ?_, ?_, ?_⟩
  · rw [← hfst, mem_lookup_of_pairwise h.rvas_distinct hr, Option.getD_some]
  · unfold PlacedAt at hplaced ⊢
    rwa [hkind, hforwarder] at hplaced
  · intro hk hf
    apply hslot
    simp [isSlotted, hkind, hforwarder, hk, hf]

theorem Of.filled (h : p.Of image) (hl : p.layout.Valid specs) (hne : p.layout.assigned ≠ []) :
    p.tables.Filled where
  nonempty := hne
  strings := ExportStrings.exportStrings_valid h.strings hne
  written := h.edata
  distinct := h.rvas_distinct
  range r hr := by
    obtain ⟨x, hx, hfst⟩ := h.rva_assigned hl hr
    have := hl.range x hx
    rwa [hfst] at this

end ImageParts

end

end Speakeasy
