import Speakeasy.RelocateImage

namespace Speakeasy

section

theorem except_bind_eq_ok {ε α β : Type} {x : Except ε α} {f : α → Except ε β} {b : β} (h : (x >>= f) = .ok b) :
    ∃ a, x = .ok a ∧ f a = .ok b := by
  cases x with
  | error e => cases h
  | ok a => exact ⟨a, rfl, h⟩

namespace GuestImage

variable {image : GuestImage} {delta : Int} {data data' : Nat → ByteBuffer} {r : BaseRelocation}

/-- The byte of a region is in the field of a relocation. -/
def Touches (image : GuestImage) (r : BaseRelocation) (i x : Nat) : Prop :=
  regionOf image.bases r.rva = some i ∧ r.rva ≤ image.start i + x ∧ image.start i + x < r.rva + r.size

theorem applyRelocation_cases (h : image.applyRelocation delta data r = .ok data') :
    (r.size = 0 ∧ data' = data) ∨ ∃ i, r.size ≠ 0 ∧ regionOf image.bases r.rva = some i ∧ image.start i ≤ r.rva ∧
      r.rva + r.size ≤ image.imageSize ∧
      data' = Function.update data i ((data i).relocate (r.rva - image.start i) r.size delta) := by
  unfold applyRelocation at h
  split at h
  next habsolute =>
    have hsize : r.size = 0 := by
      unfold BaseRelocation.size
      rw [habsolute]
      rfl
    exact Or.inl ⟨hsize, (Except.ok.inj h).symm⟩
  next =>
    split at h
    next => cases h
    next htype =>
      have hsize : r.size ≠ 0 := by
        unfold BaseRelocation.size
        split
        next => decide
        next hno => rw [if_pos (Decidable.not_not.mp fun hdir => htype ⟨hno, hdir⟩)]; decide
      split at h
      next => cases h
      next i hi =>
        split at h
        next => cases h
        next hle =>
          exact Or.inr ⟨i, hsize, hi, (regionOf_eq_some hi).2.1, Nat.le_of_not_lt hle, (Except.ok.inj h).symm⟩

theorem applyRelocation_byteAt (h : image.applyRelocation delta data r = .ok data') {j x : Nat}
    (hx : ¬image.Touches r j x) : (data' j).byteAt x = (data j).byteAt x := by
  cases applyRelocation_cases h with
  | inl hsame => rw [hsame.2]
  | inr hstep =>
    obtain ⟨i, hsize, hi, hstart, _, rfl⟩ := hstep
    by_cases hj : j = i
    · rw [hj] at hx ⊢
      rw [Function.update_self]
      apply ByteBuffer.byteAt_relocate
      have hout : ¬(r.rva ≤ image.start i + x ∧ image.start i + x < r.rva + r.size) := fun hin => hx ⟨hi, hin⟩
      omega
    · rw [Function.update_of_ne hj]

theorem applyRelocation_size (h : image.applyRelocation delta data r = .ok data') (j : Nat) :
    (data j).size ≤ (data' j).size ∧ ∀ bound, (data j).size ≤ bound →
      (r.size ≠ 0 → regionOf image.bases r.rva = some j → r.rva + r.size ≤ image.start j + bound) →
      (data' j).size ≤ bound := by
  cases applyRelocation_cases h with
  | inl hsame =>
    rw [hsame.2]
    exact ⟨Nat.le_refl _, fun bound hle _ => hle⟩
  | inr hstep =>
    obtain ⟨i, hsize, hi, hstart, _, rfl⟩ := hstep
    by_cases hj : j = i
    · rw [hj, Function.update_self, ByteBuffer.relocate_size]
      refine ⟨Nat.le_max_left _ _, fun bound hle hfits => ?_⟩
      have hfit := hfits hsize hi
      omega
    · rw [Function.update_of_ne hj]
      exact ⟨Nat.le_refl _, fun bound hle _ => hle⟩

/-! What the loop over some relocations does. -/

variable {rs : List BaseRelocation}

theorem applyAll_byteAt (h : rs.foldlM (image.applyRelocation delta) data = .ok data') {j x : Nat}
    (hx : ∀ r ∈ rs, ¬image.Touches r j x) : (data' j).byteAt x = (data j).byteAt x := by
  induction rs generalizing data with
  | nil => rw [← Except.ok.inj h]
  | cons r rs ih =>
    rw [List.foldlM_cons] at h
    obtain ⟨next, hnext, hrest⟩ := except_bind_eq_ok h
    rw [ih hrest fun r' hr' => hx r' (List.mem_cons_of_mem _ hr'),
      applyRelocation_byteAt hnext (hx r List.mem_cons_self)]

theorem applyAll_size_le (h : rs.foldlM (image.applyRelocation delta) data = .ok data') (j : Nat) :
    (data j).size ≤ (data' j).size := by
  induction rs generalizing data with
  | nil => rw [← Except.ok.inj h]
  | cons r rs ih =>
    rw [List.foldlM_cons] at h
    obtain ⟨next, hnext, hrest⟩ := except_bind_eq_ok h
    exact Nat.le_trans (applyRelocation_size hnext j).1 (ih hrest)

/-- A region grows only as far as its relocations need. -/
theorem applyAll_bound (h : rs.foldlM (image.applyRelocation delta) data = .ok data') {j bound : Nat}
    (hle : (data j).size ≤ bound)
    (hfits : ∀ r ∈ rs, r.size ≠ 0 → regionOf image.bases r.rva = some j → r.rva + r.size ≤ image.start j + bound) :
    (data' j).size ≤ bound := by
  induction rs generalizing data with
  | nil =>
    rw [← Except.ok.inj h]
    exact hle
  | cons r rs ih =>
    rw [List.foldlM_cons] at h
    obtain ⟨next, hnext, hrest⟩ := except_bind_eq_ok h
    have hstep := (applyRelocation_size hnext j).2 bound hle (hfits r List.mem_cons_self)
    exact ih hrest hstep fun r' hr' => hfits r' (List.mem_cons_of_mem _ hr')

/-- A relocation that changes something lies in the image, and in the data of its region. -/
theorem applyAll_inside (h : rs.foldlM (image.applyRelocation delta) data = .ok data') (hr : r ∈ rs)
    (hsize : r.size ≠ 0) : ∃ i, regionOf image.bases r.rva = some i ∧ r.rva + r.size ≤ image.imageSize ∧
      r.rva + r.size ≤ image.start i + (data' i).size := by
  induction rs generalizing data with
  | nil => cases hr
  | cons r' rs ih =>
    rw [List.foldlM_cons] at h
    obtain ⟨next, hnext, hrest⟩ := except_bind_eq_ok h
    cases List.mem_cons.mp hr with
    | inr hmem => exact ih hrest hmem
    | inl heq =>
      rw [← heq] at hnext
      cases applyRelocation_cases hnext with
      | inl hsame => exact absurd hsame.1 hsize
      | inr hstep =>
        obtain ⟨i, _, hi, hstart, himage, hnexteq⟩ := hstep
        have hgrows := applyAll_size_le hrest i
        rw [hnexteq, Function.update_self, ByteBuffer.relocate_size] at hgrows
        exact ⟨i, hi, himage, by omega⟩

/-- A field that no other relocation touches gets the difference once. -/
theorem applyAll_field (h : rs.foldlM (image.applyRelocation delta) data = .ok data') {k i : Nat} (hk : rs[k]? = some r)
    (hsize : r.size ≠ 0) (hi : regionOf image.bases r.rva = some i)
    (hapart : ∀ {k' r'}, k' ≠ k → rs[k']? = some r' → ∀ x, image.Touches r i x → ¬image.Touches r' i x) :
    (data' i).fieldAt (r.rva - image.start i) r.size =
      (((data i).fieldAt (r.rva - image.start i) r.size + delta) % 2 ^ (8 * r.size)).toNat := by
  have hstart := (regionOf_eq_some hi).2.1
  have htouches : ∀ x, r.rva - image.start i ≤ x → x < r.rva - image.start i + r.size → image.Touches r i x :=
    fun x hle hlt => ⟨hi, by omega, by unfold start at *; omega⟩
  induction rs generalizing data k with
  | nil => simp at hk
  | cons r' rs ih =>
    rw [List.foldlM_cons] at h
    obtain ⟨next, hnext, hrest⟩ := except_bind_eq_ok h
    cases k with
    | zero =>
      have hrr : r' = r := Option.some.inj hk
      rw [hrr] at hnext
      have hlater : (data' i).fieldAt (r.rva - image.start i) r.size =
          (next i).fieldAt (r.rva - image.start i) r.size := by
        refine ByteBuffer.fieldAt_congr fun x hle hlt => applyAll_byteAt hrest fun r'' hr'' => ?_
        obtain ⟨k', hk'⟩ := List.mem_iff_getElem?.mp hr''
        exact @hapart (k' + 1) r'' (Nat.succ_ne_zero k') hk' x (htouches x hle hlt)
      rw [hlater]
      cases applyRelocation_cases hnext with
      | inl hsame => exact absurd hsame.1 hsize
      | inr hstep =>
        obtain ⟨i', _, hi', _, _, rfl⟩ := hstep
        have hii : i' = i := Option.some.inj (hi'.symm.trans hi)
        rw [hii, Function.update_self, ByteBuffer.fieldAt_relocate]
    | succ k =>
      have hfirst : (next i).fieldAt (r.rva - image.start i) r.size =
          (data i).fieldAt (r.rva - image.start i) r.size := by
        refine ByteBuffer.fieldAt_congr fun x hle hlt => applyRelocation_byteAt hnext ?_
        exact @hapart 0 r' (Nat.succ_ne_zero k).symm rfl x (htouches x hle hlt)
      rw [← hfirst]
      exact ih hrest hk fun {k' r''} hne hk' => @hapart (k' + 1) r'' (fun heq => hne (Nat.succ.inj heq)) hk'

end GuestImage

end

section

def BaseRelocation.InField (r : BaseRelocation) (x : Nat) : Prop := r.rva ≤ x ∧ x < r.rva + r.size

/-- The RVA is in the ImageBase field. -/
def InBase (field : Option (Nat × Nat)) (x : Nat) : Prop :=
  ∃ offset size, field = some (offset, size) ∧ offset ≤ x ∧ x < offset + size

namespace GuestImage

variable (image : GuestImage)

/-- The byte of the image at an RVA, with some data of the regions. -/
def byteAt (data : Nat → ByteBuffer) (rva : Nat) : UInt8 :=
  match regionOf image.bases rva with
  | none => 0
  | some i => (data i).byteAt (rva - image.start i)

/-- The little endian value at an RVA. -/
def valueAt (data : Nat → ByteBuffer) (rva size : Nat) : Nat :=
  fromBytes ((List.range size).map fun k => image.byteAt data (rva + k))

/-- The ImageBase field of the image at a base, which the relocated header gives. -/
def baseField (base : Nat) : Option (Nat × Nat) :=
  if base = image.imageBase then none
  else
    match image.applyRelocations (base - image.imageBase) image.data with
    | .error _ => none
    | .ok data => image.headerRegion.bind fun first => image.imageBaseField (data first)

/-- The image as it would be loaded with some data of the regions, at a new preferred base. -/
def rebased (base : Nat) (data : Nat → ByteBuffer) : GuestImage :=
  { image with
    imageBase := base
    regions := image.regions.mapIdx fun i region => { region with data := data i } }

structure Disjoint : Prop where
  starts : image.bases.Nodup
  apart : ∀ {i j}, i < image.bases.length → j < image.bases.length → image.start i < image.start j →
    image.start i + (image.data i).size ≤ image.start j

/-- The other relocations do not touch the field of this one. -/
def Apart (k : Nat) (r : BaseRelocation) : Prop :=
  ∀ {k' r'}, k' ≠ k → (image.relocations.getD [])[k']? = some r' → ∀ x, r.InField x → ¬r'.InField x

/-- No field of a relocation goes past the start of a region. -/
def NoneCrosses : Prop :=
  ∀ r ∈ image.relocations.getD [], ∀ j < image.bases.length,
    ¬(r.rva < image.start j ∧ image.start j < r.rva + r.size)

/-- What `relocate_image` returns. The RVAs of the image are those of its regions before. -/
structure RelocationLaw (base : Nat) (image' : GuestImage) : Prop where
  value : ∀ {k r}, (image.relocations.getD [])[k]? = some r → image.Apart k r →
    (∀ x, r.InField x → ¬InBase (image.baseField base) x) →
    (image.valueAt image'.data r.rva r.size : Int) =
      (image.valueAt image.data r.rva r.size + (base - image.imageBase)) % 2 ^ (8 * r.size)
  frame : ∀ {x}, (∀ r ∈ image.relocations.getD [], ¬r.InField x) → ¬InBase (image.baseField base) x →
    image.byteAt image'.data x = image.byteAt image.data x
  addresses : image' =
    { image with
      imageBase := base
      regions := image'.regions
      imports := image.imports.map fun entry => { entry with iatAddress := base + entry.iatAddress }
      exports := image.exports.map fun entry => { entry with address := base + entry.address }
      entryPoints := image.entryPoints.map (base + ·)
      tlsCallbacks := image.tlsCallbacks.map (base + ·)
      tlsDirectory := image.tlsDirectory.map (base + ·)
      resourceDirectory := image.resourceDirectory.map fun directory => (base + directory.1, directory.2) }
  regions : image'.regions.map (fun region => (region.base, region.name, region.perms)) =
    image.regions.map fun region => (base + region.base, region.name, region.perms)
  below : ∀ {i j}, i < image.bases.length → j < image.bases.length → image.start i < image.start j →
    image.start i + (image'.data i).size ≤ image.start j
  inside : ∀ {i}, i < image.bases.length → image.start i + (image.data i).size ≤ image.imageSize →
    image.start i + (image'.data i).size ≤ image.imageSize
  /-- A second relocation gives the bytes of one relocation with both differences. -/
  twice : ∀ {base₂ image₁₂ image₂}, (image.rebased base image'.data).relocateImage base₂ = .ok image₁₂ →
    image.relocateImage base₂ = .ok image₂ →
    (∀ {k r}, (image.relocations.getD [])[k]? = some r → image.Apart k r ∧ ∀ x, r.InField x →
      ¬InBase (image.baseField base) x ∧ ¬InBase ((image.rebased base image'.data).baseField base₂.toNat) x ∧
        ¬InBase (image.baseField base₂.toNat) x) →
    ∀ x, (¬InBase (image.baseField base) x ∧ ¬InBase ((image.rebased base image'.data).baseField base₂.toNat) x ∧
        ¬InBase (image.baseField base₂.toNat) x ∨
      InBase (image.baseField base₂.toNat) x ∧
        (image.rebased base image'.data).baseField base₂.toNat = image.baseField base₂.toNat) →
      image.byteAt image₁₂.data x = image.byteAt image₂.data x

end GuestImage

end

end Speakeasy
