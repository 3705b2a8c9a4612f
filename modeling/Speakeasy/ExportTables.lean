import Speakeasy.ExportOrdinals

namespace Speakeasy

section

open ExportLayout

/-- The 32 bytes of a function in the text. -/
def InSlot (i a : Nat) : Prop := textRva + i * apiSlotSize ≤ a ∧ a < textRva + (i + 1) * apiSlotSize

/-- The RVA of an export, where the functions have the slots from `i` on. -/
def PlacedAt (dataRva : Nat) (forwardRvas : PyDict Nat Nat) (i : Nat) (t : Nat × ApiExportSpec)
    (r : Nat × Nat) : Prop :=
  r.1 = t.1 ∧
    if t.2.forwarder ≠ none then r.2 = (forwardRvas.lookup t.1).getD 0
    else if t.2.kind = .data then dataRva ≤ r.2
    else ∃ j, i ≤ j ∧ r.2 = textRva + j * apiSlotSize + apiEntryOffset

theorem PlacedAt.lower {dataRva i i' : Nat} {forwardRvas : PyDict Nat Nat} {t : Nat × ApiExportSpec}
    {r : Nat × Nat} (h : PlacedAt dataRva forwardRvas i t r) (hi : i' ≤ i) :
    PlacedAt dataRva forwardRvas i' t r := by
  refine ⟨h.1, ?_⟩
  have h := h.2
  by_cases hf : t.2.forwarder ≠ none
  · rwa [if_pos hf] at h ⊢
  · rw [if_neg hf] at h ⊢
    by_cases hk : t.2.kind = .data
    · rwa [if_pos hk] at h ⊢
    · rw [if_neg hk] at h ⊢
      obtain ⟨j, hj, hr⟩ := h
      exact ⟨j, hi.trans hj, hr⟩

def isSlotted (t : Nat × ApiExportSpec) : Bool := decide (t.2.kind = .function ∧ t.2.forwarder = none)

section

variable {dataRva functionIndex dataIndex : Nat} {forwardRvas : PyDict Nat Nat}
  {text text' : ByteBuffer} {targets : List (Nat × ApiExportSpec)} {rvas : List (Nat × Nat)}

/-- The three cases of the loop for its first target. -/
theorem placeTargets_cons {ordinal : Nat} {spec : ApiExportSpec}
    (h : placeTargets dataRva forwardRvas functionIndex dataIndex text ((ordinal, spec) :: targets) =
      (rvas, text')) :
    (spec.forwarder ≠ none ∧ ∃ rest, rvas = (ordinal, (forwardRvas.lookup ordinal).getD 0) :: rest ∧
      placeTargets dataRva forwardRvas functionIndex dataIndex text targets = (rest, text')) ∨
    (spec.forwarder = none ∧ spec.kind = .data ∧
      ∃ rest, rvas = (ordinal, dataRva + dataIndex * apiDataSize) :: rest ∧
        placeTargets dataRva forwardRvas functionIndex (dataIndex + 1) text targets = (rest, text')) ∨
    (spec.forwarder = none ∧ spec.kind = .function ∧
      ∃ rest, rvas = (ordinal, textRva + functionIndex * apiSlotSize + apiEntryOffset) :: rest ∧
        placeTargets dataRva forwardRvas (functionIndex + 1) dataIndex
          (text.setSlice (functionIndex * apiSlotSize) (List.replicate apiEntryOffset 0x90)) targets =
            (rest, text')) := by
  rw [placeTargets] at h
  by_cases hf : spec.forwarder ≠ none
  · rw [if_pos hf] at h
    cases h
    exact Or.inl ⟨hf, _, rfl, rfl⟩
  · rw [if_neg hf] at h
    by_cases hk : spec.kind = .data
    · rw [if_pos hk] at h
      cases h
      exact Or.inr (Or.inl ⟨not_not.mp hf, hk, _, rfl, rfl⟩)
    · rw [if_neg hk] at h
      cases h
      have hkind : spec.kind = .function := by
        cases hspec : spec.kind with
        | function => rfl
        | data => exact absurd hspec hk
      exact Or.inr (Or.inr ⟨not_not.mp hf, hkind, _, rfl, rfl⟩)

theorem placeTargets_placed
    (h : placeTargets dataRva forwardRvas functionIndex dataIndex text targets = (rvas, text')) :
    List.Forall₂ (PlacedAt dataRva forwardRvas functionIndex) targets rvas := by
  induction targets generalizing functionIndex dataIndex text rvas with
  | nil =>
    cases h
    exact List.Forall₂.nil
  | cons t targets ih =>
    obtain ⟨ordinal, spec⟩ := t
    rcases placeTargets_cons h with ⟨hf, rest, rfl, hrest⟩ | ⟨hf, hk, rest, rfl, hrest⟩ |
      ⟨hf, hk, rest, rfl, hrest⟩
    · exact List.Forall₂.cons ⟨rfl, by rw [if_pos hf]⟩ (ih hrest)
    · apply List.Forall₂.cons _ (ih hrest)
      refine ⟨rfl, ?_⟩
      rw [if_neg (not_not_intro hf), if_pos hk]
      exact Nat.le_add_right _ _
    · apply List.Forall₂.cons _ ((ih hrest).imp fun _ _ hp => hp.lower (Nat.le_succ _))
      refine ⟨rfl, ?_⟩
      rw [if_neg (not_not_intro hf), if_neg (by simp [hk])]
      exact ⟨functionIndex, Nat.le_refl _, rfl⟩

/-- The text keeps its size, and the slots are inside it. -/
theorem placeTargets_text
    (h : placeTargets dataRva forwardRvas functionIndex dataIndex text targets = (rvas, text'))
    (hsize : (functionIndex + targets.countP isSlotted) * apiSlotSize ≤ text.size) :
    text'.size = text.size ∧ List.Forall₂ (fun t r => isSlotted t = true →
      ∃ j, j * apiSlotSize + apiSlotSize ≤ text.size ∧
        r.2 = textRva + j * apiSlotSize + apiEntryOffset) targets rvas := by
  induction targets generalizing functionIndex dataIndex text rvas with
  | nil =>
    cases h
    exact ⟨rfl, List.Forall₂.nil⟩
  | cons t targets ih =>
    obtain ⟨ordinal, spec⟩ := t
    rw [List.countP_cons] at hsize
    rcases placeTargets_cons h with ⟨hf, rest, rfl, hrest⟩ | ⟨hf, hk, rest, rfl, hrest⟩ |
      ⟨hf, hk, rest, rfl, hrest⟩
    · have hslot : isSlotted (ordinal, spec) = false := by simp [isSlotted, hf]
      rw [hslot] at hsize
      obtain ⟨htext, hall⟩ := ih hrest (by simpa using hsize)
      exact ⟨htext, List.Forall₂.cons (fun hs => by simp [hslot] at hs) hall⟩
    · have hslot : isSlotted (ordinal, spec) = false := by simp [isSlotted, hk]
      rw [hslot] at hsize
      obtain ⟨htext, hall⟩ := ih hrest (by simpa using hsize)
      exact ⟨htext, List.Forall₂.cons (fun hs => by simp [hslot] at hs) hall⟩
    · have hslot : isSlotted (ordinal, spec) = true := by simp [isSlotted, hk, hf]
      rw [hslot, if_pos rfl] at hsize
      have hfit : functionIndex * apiSlotSize + apiSlotSize ≤ text.size := by
        simp only [apiSlotSize] at hsize ⊢
        omega
      have hsame : (text.setSlice (functionIndex * apiSlotSize)
          (List.replicate apiEntryOffset 0x90)).size = text.size := by
        apply ByteBuffer.setSlice_size
        rw [List.length_replicate]
        simp only [apiSlotSize, apiEntryOffset] at hfit ⊢
        omega
      obtain ⟨htext, hall⟩ := ih hrest (by
        rw [hsame]
        simp only [apiSlotSize] at hsize ⊢
        omega)
      rw [hsame] at htext hall
      exact ⟨htext, List.Forall₂.cons (fun _ => ⟨functionIndex, hfit, rfl⟩) hall⟩

/-- No two RVAs lie in one slot. -/
theorem placeTargets_slots {edataRva : Nat}
    (h : placeTargets dataRva forwardRvas functionIndex dataIndex text targets = (rvas, text'))
    (hdata : edataRva ≤ dataRva)
    (hforward : ∀ t ∈ targets, t.2.forwarder ≠ none → edataRva ≤ (forwardRvas.lookup t.1).getD 0) :
    rvas.Pairwise fun x y => ∀ i, textRva + (i + 1) * apiSlotSize ≤ edataRva →
      InSlot i x.2 → ¬ InSlot i y.2 := by
  induction targets generalizing functionIndex dataIndex text rvas with
  | nil =>
    cases h
    exact List.Pairwise.nil
  | cons t targets ih =>
    obtain ⟨ordinal, spec⟩ := t
    have hforward' := fun t ht => hforward t (List.mem_cons_of_mem _ ht)
    rcases placeTargets_cons h with ⟨hf, rest, rfl, hrest⟩ | ⟨hf, hk, rest, rfl, hrest⟩ |
      ⟨hf, hk, rest, rfl, hrest⟩
    · apply List.Pairwise.cons _ (ih hrest hforward')
      intro y _ i hi hx
      have := hforward _ List.mem_cons_self hf
      have := hx.2
      dsimp only at *
      omega
    · apply List.Pairwise.cons _ (ih hrest hforward')
      intro y _ i hi hx
      have := hx.2
      dsimp only at *
      omega
    · apply List.Pairwise.cons _ (ih hrest hforward')
      intro y hy i hi hx hyi
      obtain ⟨t, ht, hplaced⟩ : ∃ t ∈ targets, PlacedAt dataRva forwardRvas (functionIndex + 1) t y := by
        obtain ⟨n, hn, rfl⟩ := List.mem_iff_getElem.mp hy
        have hall := placeTargets_placed hrest
        exact ⟨targets.get ⟨n, hall.length_eq ▸ hn⟩, List.get_mem _ _, hall.get _ _⟩
      have hplaced := hplaced.2
      unfold InSlot at hx hyi
      simp only [apiSlotSize, apiEntryOffset] at hx hyi hi hplaced
      by_cases hf' : t.2.forwarder ≠ none
      · rw [if_pos hf'] at hplaced
        have := hforward' t ht hf'
        omega
      · rw [if_neg hf'] at hplaced
        by_cases hk' : t.2.kind = .data
        · rw [if_pos hk'] at hplaced
          omega
        · rw [if_neg hk'] at hplaced
          obtain ⟨j, hj, hr⟩ := hplaced
          omega

end

namespace ExportLayout

theorem le_alignPage (value : Nat) : value ≤ alignPage value := by
  unfold alignPage
  omega

theorem countP_sortedTargets (targets : PyDict Nat ApiExportSpec) :
    (sortedTargets targets).countP isSlotted =
      targets.entries.countP fun x => decide (x.2.kind = .function ∧ x.2.forwarder = none) := by
  have hperm : (sortedTargets targets).Perm
      (targets.entries.map fun x : (_ : Nat) × ApiExportSpec => (x.1, x.2)) := by
    rw [List.perm_ext_iff_of_nodup]
    · intro x
      rw [mem_sortedTargets, List.mem_map]
      constructor
      · intro h
        exact ⟨⟨x.1, x.2⟩, AList.mem_lookup_iff.mp h, rfl⟩
      · rintro ⟨e, he, rfl⟩
        exact AList.mem_lookup_iff.mpr he
    · apply (sortedTargets_pairwise targets).imp
      intro x y hne heq
      exact hne (congrArg Prod.fst heq)
    · apply List.Nodup.map _ (List.NodupKeys.nodup targets.nodupKeys)
      intro x y hxy
      cases x
      cases y
      cases hxy
      rfl
  rw [hperm.countP_eq, List.countP_map]
  rfl

theorem textSize_ge (l : ExportLayout) :
    (sortedTargets l.targets).countP isSlotted * apiSlotSize ≤ l.textSize := by
  rw [countP_sortedTargets]
  exact (le_max_right 1 _).trans (le_alignPage _)

end ExportLayout

end

section

open ByteBuffer

@[simp] theorem packFields_int (width value : Nat) :
    packFields [.int width value] = toBytes width value := List.append_nil _

@[simp] theorem packed_cons (w : Nat × List PackField) (writes : List (Nat × List PackField)) :
    packed (w :: writes) = (w.1, packFields w.2) :: packed writes := rfl

@[simp] theorem packed_append (writes writes' : List (Nat × List PackField)) :
    packed (writes ++ writes') = packed writes ++ packed writes' := List.map_append

theorem directoryFields_length (l : ExportLayout) (dllRva : Nat) :
    (packFields (directoryFields l dllRva)).length = 40 := by
  simp [directoryFields, packFields, PackField.encode]

theorem mem_addressWrites {l : ExportLayout} {rvas : List (Nat × Nat)} {w : Nat × List PackField} :
    w ∈ addressWrites l rvas ↔ ∃ r ∈ rvas, w = (40 + (r.1 - l.ordinalBase) * 4, [.int 4 r.2]) := by
  simp only [addressWrites, List.mem_map]
  exact exists_congr fun r => and_congr_right fun _ => eq_comm

theorem mem_nameWrites {l : ExportLayout} {nameRvas : PyDict PyStr Nat} {i : Nat}
    {named : List (PyStr × Nat)} {w : Nat × List PackField} :
    w ∈ nameWrites l nameRvas i named ↔ ∃ j, ∃ x, named[j]? = some x ∧
      (w = (l.nameOffset + (i + j) * 4, [.int 4 ((nameRvas.lookup x.1).getD 0)]) ∨
        w = (l.ordinalOffset + (i + j) * 2, [.int 2 (x.2 - l.ordinalBase)])) := by
  induction named generalizing i with
  | nil => simp [nameWrites]
  | cons y named ih =>
    obtain ⟨name, ordinal⟩ := y
    rw [nameWrites, List.mem_cons, List.mem_cons, ih]
    constructor
    · rintro (hw | hw | ⟨j, x, hx, hw⟩)
      · exact ⟨0, _, rfl, Or.inl hw⟩
      · exact ⟨0, _, rfl, Or.inr hw⟩
      · refine ⟨j + 1, x, hx, ?_⟩
        rwa [← Nat.add_assoc, Nat.add_right_comm]
    · rintro ⟨j, x, hx, hw⟩
      cases j with
      | zero =>
        cases hx
        exact hw.imp_right Or.inl
      | succ j =>
        refine Or.inr (Or.inr ⟨j, x, hx, ?_⟩)
        rwa [← Nat.add_assoc, Nat.add_right_comm] at hw

/-- The place and the width of a name entry. -/
theorem nameWrites_place {l : ExportLayout} {nameRvas : PyDict PyStr Nat} {i : Nat}
    {named : List (PyStr × Nat)} {w : Nat × List UInt8}
    (hw : w ∈ packed (nameWrites l nameRvas i named)) : ∃ j, i ≤ j ∧ j < i + named.length ∧
      (w.1 = l.nameOffset + j * 4 ∧ w.2.length = 4 ∨
        w.1 = l.ordinalOffset + j * 2 ∧ w.2.length = 2) := by
  obtain ⟨v, hv, rfl⟩ := List.mem_map.mp hw
  obtain ⟨j, x, hx, hv⟩ := mem_nameWrites.mp hv
  have hj := (List.getElem?_eq_some_iff.mp hx).1
  refine ⟨i + j, Nat.le_add_right _ _, by omega, ?_⟩
  rcases hv with rfl | rfl
  · exact Or.inl ⟨rfl, by simp⟩
  · exact Or.inr ⟨rfl, by simp⟩

theorem addressWrites_place {l : ExportLayout} {rvas : List (Nat × Nat)} {w : Nat × List UInt8}
    (hw : w ∈ packed (addressWrites l rvas)) :
    ∃ r ∈ rvas, w.1 = 40 + (r.1 - l.ordinalBase) * 4 ∧ w.2.length = 4 := by
  obtain ⟨v, hv, rfl⟩ := List.mem_map.mp hw
  obtain ⟨r, hr, rfl⟩ := mem_addressWrites.mp hv
  exact ⟨r, hr, rfl, by simp⟩

/-- The tables as the loops fill them. -/
structure ExportTables where
  layout : ExportLayout
  strings : ExportStrings
  rvas : List (Nat × Nat)
  edata : ByteBuffer

namespace ExportTables

variable {t : ExportTables}

structure Filled (t : ExportTables) : Prop where
  nonempty : t.layout.assigned ≠ []
  strings : t.strings.Valid t.layout
  written : t.strings.edata.packAll (edataWrites t.layout t.strings t.rvas) = some t.edata
  distinct : t.rvas.Pairwise fun x y => x.1 ≠ y.1
  range : ∀ r ∈ t.rvas,
    t.layout.ordinalBase ≤ r.1 ∧ r.1 < t.layout.ordinalBase + t.layout.span

/-- The writes behind the directory. -/
def entries (t : ExportTables) : List (Nat × List PackField) :=
  addressWrites t.layout t.rvas ++ nameWrites t.layout t.strings.nameRvas 0 t.layout.named

theorem Filled.writes_eq (h : t.Filled) : edataWrites t.layout t.strings t.rvas =
    (0, directoryFields t.layout t.strings.dllRva) :: t.entries := by
  rw [edataWrites, if_neg h.nonempty]
  rfl

theorem Filled.edata_eq (h : t.Filled) : t.edata = ⟨t.strings.edata.size,
    t.strings.edata.bytes.writeAll
      ((0, packFields (directoryFields t.layout t.strings.dllRva)) :: packed t.entries)⟩ := by
  have := (packAll_spec h.written).1
  rwa [h.writes_eq, packed_cons] at this

theorem Filled.fits (h : t.Filled) {w : Nat × List PackField}
    (hw : w ∈ (0, directoryFields t.layout t.strings.dllRva) :: t.entries) : ∀ f ∈ w.2, f.Fits :=
  ((packAll_spec h.written).2 w (h.writes_eq ▸ hw)).1

theorem entries_place {w : Nat × List UInt8} (hw : w ∈ packed t.entries) :
    (∃ r ∈ t.rvas, w.1 = 40 + (r.1 - t.layout.ordinalBase) * 4 ∧ w.2.length = 4) ∨
    ∃ j < t.layout.named.length, w.1 = t.layout.nameOffset + j * 4 ∧ w.2.length = 4 ∨
      w.1 = t.layout.ordinalOffset + j * 2 ∧ w.2.length = 2 := by
  rw [entries, packed_append, List.mem_append] at hw
  rcases hw with hw | hw
  · exact Or.inl (addressWrites_place hw)
  · obtain ⟨j, -, hj, hw⟩ := nameWrites_place hw
    exact Or.inr ⟨j, by omega, hw⟩

theorem entries_ge {w : Nat × List UInt8} (hw : w ∈ packed t.entries) : 40 ≤ w.1 := by
  have := entries_place hw
  simp only [ExportLayout.ordinalOffset, ExportLayout.nameOffset] at this
  omega

/-- The directory stays when names are written behind their tables. -/
theorem Filled.directory (h : t.Filled) :
    t.edata.bytes.Holds 0 (packFields (directoryFields t.layout t.strings.dllRva)) := by
  rw [h.edata_eq]
  apply ByteMemory.holds_writeAll_append []
  intro w hw
  rw [directoryFields_length]
  exact Or.inl (entries_ge hw)

theorem Filled.directory_field (h : t.Filled) {pre post : List PackField} {value : Nat}
    (hsplit : directoryFields t.layout t.strings.dllRva = pre ++ .int 4 value :: post) :
    t.edata.bytes.readInt (packFields pre).length 4 = value := by
  have hdir := h.directory
  have hfits : PackField.Fits (.int 4 value) := by
    apply h.fits List.mem_cons_self
    rw [hsplit]
    exact List.mem_append_right _ List.mem_cons_self
  rw [hsplit] at hdir
  have := hdir.field pre hfits
  rwa [Nat.zero_add] at this

section

variable (hn : t.layout.named.length = t.layout.names.length)
include hn

theorem entries_le (h : t.Filled) {w : Nat × List UInt8} (hw : w ∈ packed t.entries) :
    w.1 + w.2.length ≤ t.layout.tablesSize := by
  unfold ExportLayout.tablesSize
  rcases entries_place hw with ⟨r, hr, hw⟩ | ⟨j, hj, hw⟩
  · have := h.range r hr
    omega
  · simp only [ExportLayout.ordinalOffset, ExportLayout.nameOffset] at hw
    omega

omit hn in
theorem nameWrites_pairwise (i : Nat) (named : List (PyStr × Nat))
    (hi : i + named.length ≤ t.layout.names.length) :
    (packed (nameWrites t.layout t.strings.nameRvas i named)).Pairwise fun v w =>
      v.1 + v.2.length ≤ w.1 ∨ w.1 + w.2.length ≤ v.1 := by
  induction named generalizing i with
  | nil => exact List.Pairwise.nil
  | cons y named ih =>
    obtain ⟨name, ordinal⟩ := y
    rw [List.length_cons] at hi
    have hrest := ih (i + 1) (by omega)
    rw [nameWrites, packed_cons, packed_cons]
    simp only [packFields_int]
    refine List.Pairwise.cons ?_ (List.Pairwise.cons ?_ hrest)
    · intro w hw
      rw [toBytes_length]
      rcases List.mem_cons.mp hw with rfl | hw
      · simp only [toBytes_length, ExportLayout.ordinalOffset]
        omega
      · have := nameWrites_place hw
        simp only [ExportLayout.ordinalOffset] at this
        omega
    · intro w hw
      have := nameWrites_place hw
      simp only [toBytes_length, ExportLayout.ordinalOffset] at this ⊢
      omega

/-- When there are as many names as the tables have entries, no two writes overlap. -/
theorem Filled.pairwise (h : t.Filled) :
    ((0, packFields (directoryFields t.layout t.strings.dllRva)) :: packed t.entries).Pairwise
      fun v w => v.1 + v.2.length ≤ w.1 ∨ w.1 + w.2.length ≤ v.1 := by
  apply List.Pairwise.cons
  · intro w hw
    rw [directoryFields_length]
    exact Or.inl (entries_ge hw)
  · rw [entries, packed_append]
    apply List.pairwise_append.mpr
    refine ⟨?_, nameWrites_pairwise 0 _ (by omega), ?_⟩
    · unfold packed addressWrites
      rw [List.map_map, List.pairwise_map]
      apply h.distinct.imp_of_mem
      intro x y hx hy hne
      have := h.range x hx
      have := h.range y hy
      simp only [Function.comp_apply, packFields_int, toBytes_length]
      omega
    · intro v hv w hw
      apply Or.inl
      obtain ⟨r, hr, hv⟩ := addressWrites_place hv
      have := h.range r hr
      have := nameWrites_place hw
      simp only [ExportLayout.ordinalOffset, ExportLayout.nameOffset] at this
      omega

theorem Filled.entry (h : t.Filled) {a width value : Nat}
    (hw : (a, [.int width value]) ∈ t.entries) : t.edata.bytes.readInt a width = value := by
  have hfits : PackField.Fits (.int width value) :=
    h.fits (List.mem_cons_of_mem _ hw) _ List.mem_cons_self
  have hholds := ByteMemory.holds_writeAll (m := t.strings.edata.bytes) (h.pairwise hn)
    (List.mem_cons_of_mem _ (List.mem_map_of_mem hw))
  rw [h.edata_eq]
  exact ByteMemory.Holds.field [] hholds hfits

theorem Filled.address (h : t.Filled) {r : Nat × Nat} (hr : r ∈ t.rvas) :
    t.edata.bytes.readInt (40 + (r.1 - t.layout.ordinalBase) * 4) 4 = r.2 := by
  apply h.entry hn
  exact List.mem_append_left _ (mem_addressWrites.mpr ⟨r, hr, rfl⟩)

/-- An entry of the address table that no export has is zero. -/
theorem Filled.gap (h : t.Filled) {i : Nat} (hi : i < t.layout.span)
    (hgap : ∀ r ∈ t.rvas, r.1 ≠ t.layout.ordinalBase + i) :
    t.edata.bytes.readInt (40 + i * 4) 4 = 0 := by
  have hzero : t.edata.bytes.readBytes (40 + i * 4) 4 = List.replicate 4 0 := by
    rw [h.edata_eq]
    change (ByteMemory.writeAll _ _).readBytes _ _ = _
    rw [ByteMemory.readBytes_writeAll_of_apart, h.strings.zero]
    · unfold ExportLayout.tablesSize
      omega
    · intro w hw
      rcases List.mem_cons.mp hw with rfl | hw
      · simp only [directoryFields_length]
        omega
      · rcases entries_place hw with ⟨r, hr, hw⟩ | ⟨j, hj, hw⟩
        · have := hgap r hr
          have := h.range r hr
          omega
        · simp only [ExportLayout.ordinalOffset, ExportLayout.nameOffset] at hw
          omega
  rw [ByteMemory.readInt, hzero]
  rfl

theorem Filled.string (h : t.Filled) {rva : Nat} {value : PyStr}
    (hat : StringAt t.layout.edataRva t.layout.tablesSize t.strings.edata rva value) :
    t.edata.bytes.Holds (rva - t.layout.edataRva) (asciiBytes value ++ [0]) := by
  have hold : t.strings.edata.bytes.Holds (rva - t.layout.edataRva) (asciiBytes value ++ [0]) := by
    have := hat.read
    rwa [show value.length + 1 = (asciiBytes value ++ [0]).length by simp] at this
  unfold ByteMemory.Holds at hold ⊢
  rw [h.edata_eq]
  change (ByteMemory.writeAll _ _).readBytes _ _ = _
  rw [ByteMemory.readBytes_writeAll_of_apart, hold]
  have hle := hat.le
  intro w hw
  apply Or.inr
  rcases List.mem_cons.mp hw with rfl | hw
  · simp only [directoryFields_length]
    unfold ExportLayout.tablesSize at hle
    omega
  · have := entries_le hn h hw
    omega

/-- The entry of a name in the name table, and the one in the ordinal table. -/
theorem Filled.name (h : t.Filled) {i : Nat} {x : PyStr × Nat}
    (hx : t.layout.named[i]? = some x) :
    ∃ rva, t.edata.bytes.readInt (t.layout.nameOffset + i * 4) 4 = rva ∧
      StringAt t.layout.edataRva t.layout.tablesSize t.strings.edata rva x.1 ∧
      t.edata.bytes.readInt (t.layout.ordinalOffset + i * 2) 2 = x.2 - t.layout.ordinalBase := by
  obtain ⟨rva, hrva, hat⟩ := h.strings.name x (List.mem_of_getElem? hx)
  have hmem : (t.layout.nameOffset + i * 4, [PackField.int 4 rva]) ∈ t.entries := by
    apply List.mem_append_right
    apply mem_nameWrites.mpr
    refine ⟨i, x, hx, Or.inl ?_⟩
    rw [Nat.zero_add, hrva, Option.getD_some]
  have hmem' : (t.layout.ordinalOffset + i * 2, [PackField.int 2 (x.2 - t.layout.ordinalBase)]) ∈
      t.entries := by
    apply List.mem_append_right
    apply mem_nameWrites.mpr
    refine ⟨i, x, hx, Or.inr ?_⟩
    rw [Nat.zero_add]
  exact ⟨rva, h.entry hn hmem, hat, h.entry hn hmem'⟩

end

end ExportTables

end

end Speakeasy
