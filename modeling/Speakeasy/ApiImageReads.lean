import Speakeasy.ApiImage
import Mathlib.Data.Char
import Mathlib.Data.List.Lex
import Speakeasy.ApiImageMemory

namespace Speakeasy

instance : Std.Total ApiExportSpec.Le where
  total a b := by
    unfold ApiExportSpec.Le
    cases a.name with
    | none =>
      cases b.name with
      | none => exact Nat.le_total _ _
      | some y => exact Or.inr trivial
    | some x =>
      cases b.name with
      | none => exact Or.inl trivial
      | some y =>
        rcases lt_trichotomy (α := List Char) x y with h | h | h
        · exact Or.inl (Or.inl h)
        · rcases Nat.le_total (a.ordinal.getD 0) (b.ordinal.getD 0) with h' | h'
          · exact Or.inl (Or.inr ⟨h, h'⟩)
          · exact Or.inr (Or.inr ⟨h.symm, h'⟩)
        · exact Or.inr (Or.inl h)

instance : IsTrans ApiExportSpec ApiExportSpec.Le where
  trans a b c := by
    unfold ApiExportSpec.Le
    cases a.name <;> cases b.name <;> cases c.name <;> simp only [false_implies, implies_true]
    · exact Nat.le_trans
    · rintro (h | ⟨rfl, h⟩) (h' | ⟨rfl, h'⟩)
      · exact Or.inl (List.lt_trans h h')
      · exact Or.inl h
      · exact Or.inl h'
      · exact Or.inr ⟨rfl, h.trans h'⟩

theorem sortSpecs_spec {exports specs : List ApiExportSpec} (h : sortSpecs exports = .ok specs) :
    specs.Perm exports ∧ specs.Pairwise ApiExportSpec.Le ∧
      ∀ name ∈ specs.filterMap ApiExportSpec.name, IsAscii name := by
  unfold sortSpecs at h
  split at h
  next hascii =>
    cases h
    have hperm := List.perm_insertionSort ApiExportSpec.Le exports
    refine ⟨hperm, List.pairwise_insertionSort ApiExportSpec.Le exports, fun name hname => ?_⟩
    obtain ⟨e, he, hname⟩ := List.mem_filterMap.mp hname
    have := hascii e (hperm.mem_iff.mp he)
    rwa [hname] at this
  next => cases h

/-- In the sorted list, names that occur once are in strict order. -/
theorem names_sorted {specs : List ApiExportSpec} (h : specs.Pairwise ApiExportSpec.Le)
    (hn : (specs.filterMap ApiExportSpec.name).Nodup) :
    (specs.filterMap ApiExportSpec.name).Pairwise (· < ·) := by
  have hle : (specs.filterMap ApiExportSpec.name).Pairwise fun x y => x < y ∨ x = y := by
    apply List.Pairwise.filterMap _ _ h
    intro a b hab x hx y hy
    unfold ApiExportSpec.Le at hab
    rw [Option.mem_def.mp hx, Option.mem_def.mp hy] at hab
    exact hab.imp_right And.left
  apply (hle.and hn).imp
  intro x y hxy
  exact hxy.1.resolve_right hxy.2

theorem ofNat_toNat_lt {a b : Char} (hb : b.toNat < 128) (h : a < b) :
    UInt8.ofNat a.toNat < UInt8.ofNat b.toNat := by
  have hab : a.toNat < b.toNat := h
  rw [UInt8.lt_iff_toNat_lt, UInt8.toNat_ofNat', UInt8.toNat_ofNat']
  omega

/-- The order of ASCII names is the one of their bytes. -/
theorem asciiBytes_lt {s t : PyStr} (ht : IsAscii t) (h : s < t) : asciiBytes s < asciiBytes t := by
  induction t generalizing s with
  | nil => exact absurd h (List.not_lt_nil s)
  | cons b t ih =>
    cases s with
    | nil => exact List.nil_lt_cons _ _
    | cons a s =>
      simp only [asciiBytes, List.map_cons, List.cons_lt_cons_iff] at h ⊢
      rcases h with h | ⟨rfl, h⟩
      · exact Or.inl (ofNat_toNat_lt (ht b List.mem_cons_self) h)
      · exact Or.inr ⟨rfl, ih (fun c hc => ht c (List.mem_cons_of_mem _ hc)) h⟩

theorem zero_mem_asciiBytes {s : PyStr} (hs : IsAscii s) : 0 ∈ asciiBytes s ↔ '\x00' ∈ s := by
  constructor
  · intro h
    obtain ⟨c, hc, hzero⟩ := List.mem_map.mp h
    have hlt := hs c hc
    have : c.toNat = 0 := by
      have := congrArg UInt8.toNat hzero
      rw [UInt8.toNat_ofNat'] at this
      simp only [UInt8.toNat_zero] at this
      omega
    have hc0 : c = '\x00' := Char.ext (UInt32.toNat_inj.mp this)
    rwa [← hc0]
  · intro h
    exact List.mem_map_of_mem (f := fun c : Char => UInt8.ofNat c.toNat) h

section

open ByteBuffer ExportLayout

namespace ImageParts

variable {p : ImageParts} {image : LoadedImage} {specs : List ApiExportSpec}

def directory (p : ImageParts) : PeExportDirectory where
  rva := p.layout.edataRva
  size := p.strings.exportSize
  ordinalBase := p.layout.ordinalBase
  functionCount := p.layout.span
  nameCount := p.layout.names.length
  addressTable := p.layout.edataRva + 40
  nameTable := p.layout.edataRva + p.layout.nameOffset
  ordinalTable := p.layout.edataRva + p.layout.ordinalOffset

theorem Of.tables_le (h : p.Of image) (hl : p.layout.Valid specs) (hne : p.layout.assigned ≠ []) :
    p.layout.tablesSize ≤ p.edata.size := by
  have hs := (h.filled hl hne).strings
  rw [h.edata_size]
  exact hs.tables_le.trans hs.size_le

/-- The directory has the counts of the layout, also when the tables are overwritten. -/
theorem Of.directory_eq (h : p.Of image) (hl : p.layout.Valid specs) (hne : p.layout.assigned ≠ []) :
    image.exportDirectory = some p.directory := by
  have hfilled := h.filled hl hne
  have hsize := h.tables_le hl hne
  unfold tablesSize at hsize
  obtain ⟨hrva, hexport⟩ := h.directory_rva hne
  have hfield : ∀ (n off value : Nat) (post : List PackField), off + 4 ≤ 40 →
      (packFields ((directoryFields p.layout p.strings.dllRva).take n)).length = off →
      (directoryFields p.layout p.strings.dllRva).drop n = .int 4 value :: post →
      image.memory.readU32 (p.layout.edataRva + off) = value := by
    intro n off value post hoff hlen hdrop
    rw [ByteMemory.readU32, h.readInt_edata (by omega), ← hlen]
    have hsplit : directoryFields p.layout p.strings.dllRva =
        (directoryFields p.layout p.strings.dllRva).take n ++ .int 4 value :: post := by
      rw [← hdrop]
      exact (List.take_append_drop n _).symm
    exact hfilled.directory_field hsplit
  unfold LoadedImage.exportDirectory ByteMemory.exportDirectory
  rw [h.exportDirectoryEntry, hrva, hexport]
  have hne : ¬ p.layout.edataRva = 0 := by
    unfold edataRva textRva
    omega
  simp only [if_neg hne, hfield 5 16 _ _ (by decide) rfl rfl, hfield 6 20 _ _ (by decide) rfl rfl,
    hfield 7 24 _ _ (by decide) rfl rfl, hfield 8 28 _ _ (by decide) rfl rfl,
    hfield 9 32 _ _ (by decide) rfl rfl, hfield 10 36 _ _ (by decide) rfl rfl]
  rfl

theorem named_length (hl : p.layout.Valid specs) :
    p.layout.named.length = (specs.filterMap ApiExportSpec.name).length := by
  have hnamed : p.layout.named.map Prod.fst = specs.filterMap ApiExportSpec.name := by
    unfold named
    rw [← hl.specs_eq, List.filterMap_map, List.map_filterMap]
    apply List.filterMap_congr
    intro x _
    change (x.1.name.map fun name => (name, x.2)).map Prod.fst = x.1.name
    cases x.1.name <;> rfl
  rw [← hnamed, List.length_map]

theorem nodup_iff (hl : p.layout.Valid specs) :
    p.layout.named.length = p.layout.names.length ↔ (specs.filterMap ApiExportSpec.name).Nodup := by
  rw [named_length hl, hl.names_eq]
  constructor
  · intro heq
    have := (List.dedup_sublist (specs.filterMap ApiExportSpec.name)).eq_of_length heq.symm
    rw [← this]
    exact List.nodup_dedup _
  · intro hnodup
    rw [hnodup.dedup]

/-- The entry of the address table of an export. -/
theorem Of.addressAt (h : p.Of image) (hl : p.layout.Valid specs) (hne : p.layout.assigned ≠ [])
    (hn : p.layout.named.length = p.layout.names.length) {r : Nat × Nat} (hr : r ∈ p.rvas) :
    p.directory.addressAt image.memory (r.1 - p.layout.ordinalBase) = r.2 := by
  have hfilled := h.filled hl hne
  have hrange := hfilled.range r hr
  have hsize := h.tables_le hl hne
  unfold tablesSize at hsize
  have haddress := hfilled.address hn hr
  unfold PeExportDirectory.addressAt ByteMemory.readU32
  change image.memory.readInt (p.layout.edataRva + 40 + 4 * _) 4 = _
  rw [Nat.add_assoc, h.readInt_edata (by simp only [tables] at hrange; omega), Nat.mul_comm]
  exact haddress

theorem Of.addressAt_gap (h : p.Of image) (hl : p.layout.Valid specs)
    (hne : p.layout.assigned ≠ []) (hn : p.layout.named.length = p.layout.names.length) {i : Nat}
    (hi : i < p.layout.span) (hgap : ∀ r ∈ p.rvas, r.1 ≠ p.layout.ordinalBase + i) :
    p.directory.addressAt image.memory i = 0 := by
  have hsize := h.tables_le hl hne
  unfold tablesSize at hsize
  have := (h.filled hl hne).gap hn hi hgap
  unfold PeExportDirectory.addressAt ByteMemory.readU32
  change image.memory.readInt (p.layout.edataRva + 40 + 4 * _) 4 = _
  rw [Nat.add_assoc, h.readInt_edata (by omega), Nat.mul_comm]
  exact this

/-- A string of the section is read back from the image. -/
theorem Of.cString (h : p.Of image) (hl : p.layout.Valid specs) (hne : p.layout.assigned ≠ [])
    (hn : p.layout.named.length = p.layout.names.length) {rva : Nat} {value : PyStr}
    (hat : StringAt p.layout.edataRva p.layout.tablesSize p.strings.edata rva value)
    (hzero : '\x00' ∉ value) : image.memory.cString rva image.imageSize = asciiBytes value := by
  have hholds := (h.filled hl hne).string hn hat
  have hle := hat.le
  have hend := hat.end_le
  have hsize := h.edata_size
  have hlen : (asciiBytes value ++ [0]).length = value.length + 1 := by simp
  change p.edata.bytes.Holds (rva - p.layout.edataRva) (asciiBytes value ++ [0]) at hholds
  have hmem := h.holds_edata hholds (by omega)
  rw [show p.layout.edataRva + (rva - p.layout.edataRva) = rva by omega] at hmem
  apply ByteMemory.cString_eq hmem
  · rwa [zero_mem_asciiBytes hat.ascii]
  · rw [h.size, asciiBytes_length]
    unfold imageSize dataRva
    omega

/-- The entry of an export is a forwarder when the export is one. -/
theorem Of.forwarderAt (h : p.Of image) (hl : p.layout.Valid specs) (hne : p.layout.assigned ≠ [])
    (hn : p.layout.named.length = p.layout.names.length)
    (hzero : ∀ f ∈ specs.filterMap ApiExportSpec.forwarder, '\x00' ∉ f) {x : ApiExportSpec × Nat}
    (hx : x ∈ p.layout.assigned) {r : Nat × Nat}
    (hplaced : PlacedAt p.dataRva p.strings.forwardRvas 0 (x.2, x.1) r)
    (hslot : x.1.kind = .function → x.1.forwarder = none → ∃ j, j * apiSlotSize + apiSlotSize ≤
      p.layout.textSize ∧ r.2 = textRva + j * apiSlotSize + apiEntryOffset) :
    p.directory.forwarderAt image.memory image.imageSize r.2 = x.1.forwarder.map asciiBytes := by
  have hvalid := (h.filled hl hne).strings
  have hsize_le : p.strings.exportSize ≤ p.strings.edata.size := hvalid.size_le
  have hplaced := hplaced.2
  unfold PeExportDirectory.forwarderAt
  cases hf : x.1.forwarder with
  | some f =>
    rw [if_pos (by simp [hf])] at hplaced
    obtain ⟨s, hs, -, hforwarder⟩ := hl.targeted x hx
    obtain ⟨rva, hrva, hat, hend⟩ := hvalid.forwarder (x.2, f)
      (mem_forwarders.mpr ⟨s, hs, hforwarder.trans hf⟩)
    have hr : r.2 = rva := by
      rw [hplaced]
      change (p.strings.forwardRvas.lookup x.2).getD 0 = rva
      have : p.strings.forwardRvas.lookup x.2 = some rva := hrva
      rw [this, Option.getD_some]
    have hle := hat.le
    have hin : p.directory.rva ≤ r.2 ∧ r.2 < p.directory.rva + p.directory.size := by
      change p.layout.edataRva ≤ r.2 ∧ r.2 < p.layout.edataRva + p.strings.exportSize
      simp only [tables] at hle hend
      omega
    rw [if_pos hin, hr, h.cString hl hne hn hat]
    · rfl
    · apply hzero
      rw [← hl.specs_eq]
      exact List.mem_filterMap.mpr ⟨x.1, List.mem_map_of_mem hx, hf⟩
  | none =>
    rw [if_neg (by simp [hf])] at hplaced
    rw [if_neg]
    · rfl
    · change ¬(p.layout.edataRva ≤ r.2 ∧ r.2 < p.layout.edataRva + p.strings.exportSize)
      cases hk : x.1.kind with
      | data =>
        rw [if_pos (by exact hk)] at hplaced
        unfold dataRva at hplaced
        omega
      | function =>
        obtain ⟨j, hj, hr⟩ := hslot hk hf
        unfold edataRva
        simp only [apiSlotSize, apiEntryOffset] at hj hr
        omega

theorem Of.exportAt (h : p.Of image) (hl : p.layout.Valid specs) (hne : p.layout.assigned ≠ [])
    (hn : p.layout.named.length = p.layout.names.length)
    (hzero : ∀ f ∈ specs.filterMap ApiExportSpec.forwarder, '\x00' ∉ f) {x : ApiExportSpec × Nat}
    (hx : x ∈ p.layout.assigned) (name : Option (List UInt8)) :
    p.directory.exportAt image.memory image.imageSize name (x.2 - p.layout.ordinalBase) =
      ⟨name, x.2, (p.rvas.lookup x.2).getD 0, x.1.forwarder.map asciiBytes⟩ := by
  obtain ⟨r, hr, hfst, hlookup, hplaced, hslot⟩ := h.placed_of_assigned hl hx
  have haddress := h.addressAt hl hne hn hr
  have hforwarder := h.forwarderAt hl hne hn hzero hx hplaced hslot
  have hrange := hl.range x hx
  have hordinal : p.directory.ordinalBase + (x.2 - p.layout.ordinalBase) = x.2 := by
    change p.layout.ordinalBase + _ = _
    omega
  rw [hfst] at haddress
  unfold PeExportDirectory.exportAt
  rw [haddress, hforwarder, hordinal, hlookup]

end ImageParts

end

end Speakeasy
