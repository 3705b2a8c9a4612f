import Speakeasy.ApiImageReads

namespace Speakeasy

open ByteBuffer ExportLayout

/-- The export as a reader of the tables sees it. -/
def ExportEntry.read (e : ExportEntry) (name : Option (List UInt8)) : PeExport :=
  ⟨name, e.ordinal, e.address, e.forwarder.map asciiBytes⟩

/-- The export tables of the image read back as the exports that it lists. -/
structure ExportsRoundTrip (image : LoadedImage) : Prop where
  named : image.byName =
    image.exports.filterMap fun e => e.name.map fun name => e.read (some (asciiBytes name))
  ordinals : ∀ x, x ∈ image.byOrdinal ↔ ∃ e ∈ image.exports, x = e.read none
  sorted : image.byName.Pairwise fun a b => a.name.getD [] < b.name.getD []
  gaps : ∀ d, image.exportDirectory = some d → ∀ i < d.functionCount,
    (∀ e ∈ image.exports, e.ordinal ≠ d.ordinalBase + i) → d.addressAt image.memory i = 0
  slots : ∀ e ∈ image.exports, e.kind = .function → e.forwarder = none →
    ∃ text ∈ image.regions, text.name = ".text".toList ∧ ∃ i,
      (i + 1) * apiSlotSize ≤ text.data.size ∧ text.base + i * apiSlotSize ≤ e.address ∧
      e.address < text.base + (i + 1) * apiSlotSize ∧
      ∀ e' ∈ image.exports, text.base + i * apiSlotSize ≤ e'.address →
        e'.address < text.base + (i + 1) * apiSlotSize → e'.ordinal = e.ordinal

namespace ImageParts

variable {p : ImageParts} {image : LoadedImage} {specs : List ApiExportSpec}

theorem Of.named_eq (h : p.Of image) {β : Type} (f : ExportEntry → PyStr → β) :
    (image.exports.filterMap fun e => e.name.map (f e)) =
      p.layout.assigned.filterMap fun x => x.1.name.map
        (f ⟨x.1.name, (p.rvas.lookup x.2).getD 0, x.2, x.1.kind, x.1.forwarder⟩) := by
  rw [h.exports, List.filterMap_map]
  rfl

theorem Of.mem_exports (h : p.Of image) {e : ExportEntry} : e ∈ image.exports ↔
    ∃ x ∈ p.layout.assigned,
      e = ⟨x.1.name, (p.rvas.lookup x.2).getD 0, x.2, x.1.kind, x.1.forwarder⟩ := by
  rw [h.exports, List.mem_map]
  exact exists_congr fun x => and_congr_right fun _ => eq_comm

section

variable (h : p.Of image) (hl : p.layout.Valid specs) (hne : p.layout.assigned ≠ [])
  (hn : p.layout.named.length = p.layout.names.length)
include h hl hne

/-- Two exports whose RVAs lie in one slot of the text have one ordinal. -/
theorem Of.slot_shared {x y : ApiExportSpec × Nat} (hx : x ∈ p.layout.assigned)
    (hy : y ∈ p.layout.assigned) {i : Nat} (hi : textRva + (i + 1) * apiSlotSize ≤ p.layout.edataRva)
    (hxi : InSlot i ((p.rvas.lookup x.2).getD 0)) (hyi : InSlot i ((p.rvas.lookup y.2).getD 0)) :
    x.2 = y.2 := by
  have hvalid := (h.filled hl hne).strings
  have hdata : p.layout.edataRva ≤ p.dataRva := Nat.le_add_right _ _
  have hslots := placeTargets_slots h.placed hdata (by
    intro t ht hf
    obtain ⟨f, hf⟩ := Option.ne_none_iff_exists'.mp hf
    obtain ⟨rva, hrva, hat, -⟩ := hvalid.forwarder (t.1, f)
      (mem_forwarders.mpr ⟨t.2, mem_sortedTargets.mp ht, hf⟩)
    have hrva : p.strings.forwardRvas.lookup t.1 = some rva := hrva
    rw [hrva, Option.getD_some]
    exact (Nat.le_add_right _ _).trans hat.le)
  obtain ⟨r, hr, hrx, hrlookup, -⟩ := h.placed_of_assigned hl hx
  obtain ⟨s, hs, hsy, hslookup, -⟩ := h.placed_of_assigned hl hy
  rw [hrlookup] at hxi
  rw [hslookup] at hyi
  rw [← hrx, ← hsy]
  by_contra hdiff
  have hrs : r ≠ s := fun heq => hdiff (by rw [heq])
  have hpair : p.rvas.Pairwise fun x y => ¬(InSlot i x.2 ∧ InSlot i y.2) :=
    hslots.imp fun hxy hboth => hxy i hi hboth.1 hboth.2
  have hsymm : Std.Symm fun x y : Nat × Nat => ¬(InSlot i x.2 ∧ InSlot i y.2) :=
    ⟨fun _ _ hxy hboth => hxy hboth.symm⟩
  exact hpair.forall hr hs hrs ⟨hxi, hyi⟩

theorem Of.slot_of_function {e : ExportEntry} (he : e ∈ image.exports) (hk : e.kind = .function)
    (hf : e.forwarder = none) : ∃ text ∈ image.regions, text.name = ".text".toList ∧ ∃ i,
      (i + 1) * apiSlotSize ≤ text.data.size ∧ text.base + i * apiSlotSize ≤ e.address ∧
      e.address < text.base + (i + 1) * apiSlotSize ∧
      ∀ e' ∈ image.exports, text.base + i * apiSlotSize ≤ e'.address →
        e'.address < text.base + (i + 1) * apiSlotSize → e'.ordinal = e.ordinal := by
  obtain ⟨x, hx, rfl⟩ := h.mem_exports.mp he
  obtain ⟨r, hr, hrx, hlookup, -, hslot⟩ := h.placed_of_assigned hl hx
  obtain ⟨j, hj, hrj⟩ := hslot hk hf
  have htext : (⟨textRva, p.text, ".text".toList, permMemRx⟩ : MemoryRegion) ∈ image.regions := by
    rw [h.regions]
    exact List.mem_cons_of_mem _ List.mem_cons_self
  have hin : InSlot j ((p.rvas.lookup x.2).getD 0) := by
    rw [hlookup, hrj]
    unfold InSlot
    simp only [apiSlotSize, apiEntryOffset]
    omega
  have hfit : (j + 1) * apiSlotSize ≤ p.layout.textSize := by
    simp only [apiSlotSize] at hj ⊢
    omega
  refine ⟨_, htext, rfl, j, ?_, hin.1, hin.2, ?_⟩
  · rw [h.text_size]
    exact hfit
  · intro e' he' hle hlt
    obtain ⟨y, hy, rfl⟩ := h.mem_exports.mp he'
    exact (h.slot_shared hl hne hx hy (Nat.add_le_add_left hfit _) hin ⟨hle, hlt⟩).symm

/-- The name tables have an entry for each different name, whatever is written in them. -/
theorem Of.byName_length : image.byName.length = p.layout.names.length := by
  unfold LoadedImage.byName
  rw [h.directory_eq hl hne]
  simp only [Option.map_some, Option.getD_some, PeExportDirectory.byName, List.length_map,
    List.length_range]
  rfl

include hn

theorem Of.byName_eq (hnul : ∀ name ∈ specs.filterMap ApiExportSpec.name, '\x00' ∉ name)
    (hzero : ∀ f ∈ specs.filterMap ApiExportSpec.forwarder, '\x00' ∉ f) : image.byName =
      image.exports.filterMap fun e => e.name.map fun name => e.read (some (asciiBytes name)) := by
  have hlisted : (image.exports.filterMap fun e => e.name.map fun name =>
      e.read (some (asciiBytes name))) = p.layout.named.map fun x =>
        p.directory.exportAt image.memory image.imageSize (some (asciiBytes x.1))
          (x.2 - p.layout.ordinalBase) := by
    rw [h.named_eq, named, List.map_filterMap]
    apply List.filterMap_congr
    intro x hx
    have hat := h.exportAt hl hne hn hzero hx
    cases x.1.name with
    | none => rfl
    | some name => exact congrArg some (hat (some (asciiBytes name))).symm
  have hread : image.byName = (List.range p.layout.names.length).map fun i =>
      p.directory.exportAt image.memory image.imageSize
        (some (image.memory.cString (image.memory.readU32 (p.directory.nameTable + 4 * i))
          image.imageSize)) (image.memory.readU16 (p.directory.ordinalTable + 2 * i)) := by
    unfold LoadedImage.byName
    rw [h.directory_eq hl hne]
    rfl
  have hsize := h.tables_le hl hne
  rw [hlisted, hread]
  apply List.ext_getElem
  · rw [List.length_map, List.length_map, List.length_range, hn]
  · intro i hi hi'
    rw [List.length_map] at hi'
    simp only [List.getElem_map, List.getElem_range]
    obtain ⟨rva, hrva, hat, hordinal⟩ := (h.filled hl hne).name hn (List.getElem?_eq_getElem hi')
    have hname : image.memory.readU32 (p.directory.nameTable + 4 * i) = rva := by
      unfold ByteMemory.readU32
      change image.memory.readInt (p.layout.edataRva + p.layout.nameOffset + 4 * i) 4 = _
      rw [Nat.add_assoc, h.readInt_edata, Nat.mul_comm]
      · exact hrva
      · unfold tablesSize at hsize
        unfold nameOffset
        omega
    have hindex : image.memory.readU16 (p.directory.ordinalTable + 2 * i) =
        p.layout.named[i].2 - p.layout.ordinalBase := by
      unfold ByteMemory.readU16
      change image.memory.readInt (p.layout.edataRva + p.layout.ordinalOffset + 2 * i) 2 = _
      rw [Nat.add_assoc, h.readInt_edata, Nat.mul_comm]
      · exact hordinal
      · unfold tablesSize at hsize
        unfold ordinalOffset nameOffset
        omega
    rw [hname, hindex, h.cString hl hne hn hat]
    apply hnul
    obtain ⟨x, hx, hnamed⟩ := List.mem_filterMap.mp (List.getElem_mem hi')
    obtain ⟨name, hxname, hpair⟩ := Option.map_eq_some_iff.mp hnamed
    rw [← hpair, ← hl.specs_eq]
    exact List.mem_filterMap.mpr ⟨x.1, List.mem_map_of_mem hx, hxname⟩

theorem Of.mem_byOrdinal (hzero : ∀ f ∈ specs.filterMap ApiExportSpec.forwarder, '\x00' ∉ f)
    (x : PeExport) : x ∈ image.byOrdinal ↔ ∃ e ∈ image.exports, x = e.read none := by
  have hread : image.byOrdinal = p.directory.byOrdinal image.memory image.imageSize := by
    unfold LoadedImage.byOrdinal
    rw [h.directory_eq hl hne]
    rfl
  rw [hread, PeExportDirectory.byOrdinal]
  simp only [List.mem_map, List.mem_filter, List.mem_range, decide_eq_true_eq]
  constructor
  · rintro ⟨i, ⟨hi, haddress⟩, rfl⟩
    have hr : ∃ r ∈ p.rvas, r.1 = p.layout.ordinalBase + i := by
      by_contra hgap
      apply haddress
      apply h.addressAt_gap hl hne hn hi
      intro r hr heq
      exact hgap ⟨r, hr, heq⟩
    obtain ⟨r, hr, hri⟩ := hr
    obtain ⟨y, hy, hyr⟩ := h.rva_assigned hl hr
    refine ⟨_, h.mem_exports.mpr ⟨y, hy, rfl⟩, ?_⟩
    have hat := h.exportAt hl hne hn hzero hy none
    rwa [show y.2 - p.layout.ordinalBase = i by omega] at hat
  · rintro ⟨e, he, rfl⟩
    obtain ⟨y, hy, rfl⟩ := h.mem_exports.mp he
    have hrange := hl.range y hy
    obtain ⟨r, hr, hry, hlookup, hplaced, -⟩ := h.placed_of_assigned hl hy
    refine ⟨y.2 - p.layout.ordinalBase, ⟨?_, ?_⟩, h.exportAt hl hne hn hzero hy none⟩
    · change _ < p.layout.span
      omega
    · rw [← hry, h.addressAt hl hne hn hr]
      have hplaced := hplaced.2
      have hedata : 0 < p.layout.edataRva := by
        unfold edataRva textRva
        omega
      by_cases hf : y.1.forwarder ≠ none
      · obtain ⟨f, hf'⟩ := Option.ne_none_iff_exists'.mp hf
        obtain ⟨s, hs, -, hforwarder⟩ := hl.targeted y hy
        obtain ⟨rva, hrva, hat, -⟩ := (h.filled hl hne).strings.forwarder (y.2, f)
          (mem_forwarders.mpr ⟨s, hs, hforwarder.trans hf'⟩)
        have hrva : p.strings.forwardRvas.lookup y.2 = some rva := hrva
        rw [if_pos hf, hrva, Option.getD_some] at hplaced
        have hle := hat.le
        simp only [tables] at hle
        omega
      · rw [if_neg hf] at hplaced
        by_cases hk : y.1.kind = .data
        · rw [if_pos hk] at hplaced
          unfold dataRva at hplaced
          omega
        · rw [if_neg hk] at hplaced
          obtain ⟨j, -, hj⟩ := hplaced
          simp only [textRva] at hj
          omega

end

end ImageParts

namespace ExportsRoundTrip

variable {name emuPath : PyStr} {arch : Arch} {base : Nat} {exports : List ApiExportSpec}
  {image : LoadedImage}

theorem parts_of_build (h : buildApiImage name arch base emuPath exports = .ok image) :
    ∃ specs, specs.Perm exports ∧ specs.Pairwise ApiExportSpec.Le ∧
      (∀ name ∈ specs.filterMap ApiExportSpec.name, IsAscii name) ∧
      ∃ p : ImageParts, p.layout.Valid specs ∧ p.Of image := by
  unfold buildApiImage at h
  cases hname : asciiString name "module name".toList with
  | error e =>
    rw [hname] at h
    cases h
  | ok u =>
    cases hsort : sortSpecs exports with
    | error e =>
      rw [hname, hsort] at h
      cases h
    | ok specs =>
      cases hlayout : ExportLayout.ofSpecs specs with
      | error e =>
        rw [hname, hsort] at h
        simp only [hlayout] at h
        cases h
      | ok l =>
        rw [hname, hsort] at h
        simp only [hlayout] at h
        obtain ⟨hperm, hsorted, hascii⟩ := sortSpecs_spec hsort
        obtain ⟨p, hp, hof⟩ := ImageParts.buildImage_parts h
        subst hp
        exact ⟨specs, hperm, hsorted, hascii, p, ExportLayout.ofSpecs_valid hlayout, hof⟩

/-- What the tables can say of the exports. -/
def Readable (exports : List ApiExportSpec) : Prop :=
  (exports.filterMap ApiExportSpec.name).Nodup ∧
    (∀ name ∈ exports.filterMap ApiExportSpec.name, '\x00' ∉ name) ∧
    ∀ f ∈ exports.filterMap ApiExportSpec.forwarder, '\x00' ∉ f

theorem readable_perm {specs : List ApiExportSpec} (h : specs.Perm exports) :
    Readable specs ↔ Readable exports := by
  unfold Readable
  have hnames := h.filterMap ApiExportSpec.name
  have hforwarders := h.filterMap ApiExportSpec.forwarder
  rw [hnames.nodup_iff]
  simp only [hnames.mem_iff, hforwarders.mem_iff]

variable {p : ImageParts} {specs : List ApiExportSpec}

theorem of_empty (hof : p.Of image) (hempty : p.layout.assigned = []) : ExportsRoundTrip image := by
  have hnone := hof.directory_none hempty
  have hexports : image.exports = [] := by
    rw [hof.exports, hempty]
    rfl
  have hnamed : image.byName = [] := by
    unfold LoadedImage.byName
    rw [hnone]
    rfl
  have hordinals : image.byOrdinal = [] := by
    unfold LoadedImage.byOrdinal
    rw [hnone]
    rfl
  refine ⟨?_, ?_, ?_, ?_, ?_⟩
  · rw [hnamed, hexports]
    rfl
  · intro x
    rw [hordinals, hexports]
    simp
  · rw [hnamed]
    exact List.Pairwise.nil
  · intro d hd
    rw [hnone] at hd
    cases hd
  · intro e he
    rw [hexports] at he
    cases he

theorem of_readable (hl : p.layout.Valid specs) (hof : p.Of image)
    (hsorted : specs.Pairwise ApiExportSpec.Le)
    (hascii : ∀ name ∈ specs.filterMap ApiExportSpec.name, IsAscii name)
    (hr : Readable specs) : ExportsRoundTrip image := by
  by_cases hne : p.layout.assigned = []
  · exact of_empty hof hne
  obtain ⟨hnodup, hnul, hzero⟩ := hr
  have hn := (ImageParts.nodup_iff hl).mpr hnodup
  have hnamed := hof.byName_eq hl hne hn hnul hzero
  refine ⟨hnamed, hof.mem_byOrdinal hl hne hn hzero, ?_, ?_, ?_⟩
  · have hnames : (image.exports.filterMap ExportEntry.name).Pairwise
        fun s t => asciiBytes s < asciiBytes t := by
      have : image.exports.filterMap ExportEntry.name = specs.filterMap ApiExportSpec.name := by
        rw [hof.exports, ← hl.specs_eq, List.filterMap_map, List.filterMap_map]
        rfl
      rw [this]
      apply (names_sorted hsorted hnodup).imp_of_mem
      intro s t _ ht hlt
      exact asciiBytes_lt (hascii t ht) hlt
    rw [List.pairwise_filterMap] at hnames
    rw [hnamed, List.pairwise_filterMap]
    apply hnames.imp
    intro a b hab x hx y hy
    obtain ⟨s, hs, rfl⟩ := Option.map_eq_some_iff.mp hx
    obtain ⟨t, ht, rfl⟩ := Option.map_eq_some_iff.mp hy
    exact hab s hs t ht
  · intro d hd i hi hgap
    rw [hof.directory_eq hl hne] at hd
    cases hd
    apply hof.addressAt_gap hl hne hn hi
    intro r hr heq
    obtain ⟨x, hx, hxr⟩ := hof.rva_assigned hl hr
    exact hgap _ (hof.mem_exports.mpr ⟨x, hx, rfl⟩) (hxr.trans heq)
  · intro e he hk hf
    exact hof.slot_of_function hl hne he hk hf

theorem readable_of (hl : p.layout.Valid specs) (hof : p.Of image)
    (hascii : ∀ name ∈ specs.filterMap ApiExportSpec.name, IsAscii name)
    (h : ExportsRoundTrip image) : Readable specs := by
  by_cases hne : p.layout.assigned = []
  · have : specs = [] := by
      rw [← hl.specs_eq, hne]
      rfl
    rw [this]
    exact ⟨List.Pairwise.nil, by simp, by simp⟩
  have hread : image.byName.map PeExport.name =
      (specs.filterMap ApiExportSpec.name).map fun name => some (asciiBytes name) := by
    rw [h.named, hof.named_eq, List.map_filterMap, ← hl.specs_eq, List.filterMap_map,
      List.map_filterMap]
    apply List.filterMap_congr
    intro x _
    change (x.1.name.map _).map PeExport.name = x.1.name.map _
    cases x.1.name <;> rfl
  have hdirectory := hof.directory_eq hl hne
  refine ⟨?_, ?_, ?_⟩
  · apply (ImageParts.nodup_iff hl).mp
    have hlen := congrArg List.length hread
    rw [List.length_map, List.length_map, hof.byName_length hl hne] at hlen
    rw [ImageParts.named_length hl, hlen]
  · intro name hname
    have hmem : some (asciiBytes name) ∈ image.byName.map PeExport.name := by
      rw [hread]
      exact List.mem_map_of_mem (f := fun name : PyStr => some (asciiBytes name)) hname
    obtain ⟨x, hx, hxname⟩ := List.mem_map.mp hmem
    unfold LoadedImage.byName at hx
    rw [hdirectory] at hx
    rw [← zero_mem_asciiBytes (hascii name hname)]
    exact PeExportDirectory.zero_not_mem_byName hx hxname
  · intro f hf
    obtain ⟨spec, hspec, hforwarder⟩ := List.mem_filterMap.mp hf
    rw [← hl.specs_eq] at hspec
    obtain ⟨x, hx, rfl⟩ := List.mem_map.mp hspec
    obtain ⟨s, hs, -, hsame⟩ := hl.targeted x hx
    obtain ⟨rva, -, hat, -⟩ := (hof.filled hl hne).strings.forwarder (x.2, f)
      (ExportLayout.mem_forwarders.mpr ⟨s, hs, hsame.trans hforwarder⟩)
    have hmem := (h.ordinals _).mpr ⟨_, hof.mem_exports.mpr ⟨x, hx, rfl⟩, rfl⟩
    unfold LoadedImage.byOrdinal at hmem
    rw [hdirectory] at hmem
    obtain ⟨i, -, hi⟩ := List.mem_map.mp hmem
    have hread : p.directory.forwarderAt image.memory image.imageSize
        (p.directory.addressAt image.memory i) = some (asciiBytes f) := by
      have := congrArg PeExport.forwarder hi
      simp only [ExportEntry.read, hforwarder] at this
      exact this
    rw [← zero_mem_asciiBytes hat.ascii]
    exact PeExportDirectory.zero_not_mem_forwarderAt hread

/-- A built image reads back as its list of exports when no name occurs in two of them, and there
is no zero in a name or in a forwarder. -/
theorem build_exportsRoundTrip_iff (h : buildApiImage name arch base emuPath exports = .ok image) :
    ExportsRoundTrip image ↔ Readable exports := by
  obtain ⟨specs, hperm, hsorted, hascii, p, hl, hof⟩ := parts_of_build h
  rw [← readable_perm hperm]
  exact ⟨readable_of hl hof hascii, of_readable hl hof hsorted hascii⟩

theorem build_ok (h : (buildApiImage name arch base emuPath exports).toOption.isSome = true) :
    ∃ image, buildApiImage name arch base emuPath exports = .ok image := by
  cases hbuild : buildApiImage name arch base emuPath exports with
  | error e =>
    rw [hbuild] at h
    cases h
  | ok image => exact ⟨image, rfl⟩

def mixedSpecs : List ApiExportSpec :=
  [⟨some ['b'], some 3, .function, none⟩, ⟨some ['a'], none, .data, none⟩,
    ⟨none, some 7, .function, some ['k', '.', 'f']⟩]

theorem build_exportsRoundTrip_mixed : ∃ image,
    buildApiImage ['m'] .x86 0x10000000 [] mixedSpecs = .ok image ∧
      (ExportsRoundTrip image ↔ Readable mixedSpecs) := by
  have hok : (buildApiImage ['m'] .x86 0x10000000 [] mixedSpecs).toOption.isSome = true := by
    decide +kernel
  obtain ⟨image, h⟩ := build_ok hok
  exact ⟨image, h, build_exportsRoundTrip_iff h⟩

def sharedNameSpecs : List ApiExportSpec :=
  [⟨some ['a'], some 1, .function, none⟩, ⟨some ['a'], some 2, .function, none⟩,
    ⟨some ['b'], some 3, .function, none⟩]

/-- The third name entry lies behind its table, where the ordinals are written over it. -/
theorem build_not_exportsRoundTrip : ∃ image,
    buildApiImage ['m'] .amd64 0x180000000 [] sharedNameSpecs = .ok image ∧
      ¬ ExportsRoundTrip image := by
  have hok : (buildApiImage ['m'] .amd64 0x180000000 [] sharedNameSpecs).toOption.isSome = true := by
    decide +kernel
  obtain ⟨image, h⟩ := build_ok hok
  refine ⟨image, h, fun hround => ?_⟩
  obtain ⟨specs, hperm, -, hascii, p, hl, hof⟩ := parts_of_build h
  have hreadable := (readable_perm hperm).mp (readable_of hl hof hascii hround)
  exact absurd hreadable.1 (by decide)

end ExportsRoundTrip

end Speakeasy
