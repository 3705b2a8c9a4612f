import Speakeasy.RelocationSteps

namespace Speakeasy

section

theorem fromBytes_inj {as bs : List UInt8} (hlen : as.length = bs.length) (h : fromBytes as = fromBytes bs) :
    as = bs := by
  induction as generalizing bs with
  | nil => exact (List.length_eq_zero_iff.mp hlen.symm).symm
  | cons a as ih =>
    cases bs with
    | nil => cases hlen
    | cons b bs =>
      have ha := a.toNat_lt
      have hb := b.toNat_lt
      unfold fromBytes at h
      have hhead : a = b := UInt8.toNat_inj.mp (by omega)
      rw [hhead, ih (Nat.succ.inj hlen) (by omega)]

namespace GuestImage

variable {image : GuestImage} {base : Nat} {data data' : Nat → ByteBuffer}

theorem length_bases (image : GuestImage) : image.bases.length = image.regions.length := List.length_map _

theorem byteAt_congr (h : ∀ j < image.bases.length, data j = data' j) (x : Nat) :
    image.byteAt data x = image.byteAt data' x := by
  unfold byteAt
  cases hx : regionOf image.bases x with
  | none => rfl
  | some i =>
    show (data i).byteAt _ = (data' i).byteAt _
    rw [h i (regionOf_eq_some hx).1]

theorem valueAt_congr {rva size : Nat} (h : ∀ x, rva ≤ x → x < rva + size → image.byteAt data x = image.byteAt data' x) :
    image.valueAt data rva size = image.valueAt data' rva size := by
  unfold valueAt
  congr 1
  apply List.map_congr_left
  intro k hk
  rw [List.mem_range] at hk
  exact h (rva + k) (by omega) (by omega)

theorem byteAt_of_valueAt {rva size x : Nat} (h : image.valueAt data rva size = image.valueAt data' rva size)
    (hle : rva ≤ x) (hlt : x < rva + size) : image.byteAt data x = image.byteAt data' x := by
  have hlist := fromBytes_inj (by rw [List.length_map, List.length_map]) h
  have hk := congrArg (fun bytes => bytes[x - rva]?) hlist
  simp only [List.getElem?_map, List.getElem?_range (show x - rva < size by omega), Option.map_some,
    Option.some.injEq, Nat.add_sub_cancel' hle] at hk
  exact hk

theorem valueAt_lt (image : GuestImage) (data : Nat → ByteBuffer) (rva size : Nat) :
    image.valueAt data rva size < 2 ^ (8 * size) := by
  have hlt := fromBytes_lt ((List.range size).map fun k => image.byteAt data (rva + k))
  rw [List.length_map, List.length_range] at hlt
  rw [Nat.pow_mul]
  exact hlt

/-! The data of an image at a base. -/

theorem atBase_data {i : Nat} (h : i < image.bases.length) : (image.atBase base data).data i = data i := by
  rw [length_bases] at h
  unfold GuestImage.data atBase
  simp only [List.getElem?_mapIdx, List.getElem?_eq_getElem h, Option.map_some]

theorem rebased_data {i : Nat} (h : i < image.bases.length) : (image.rebased base data).data i = data i := by
  rw [length_bases] at h
  unfold GuestImage.data rebased
  simp only [List.getElem?_mapIdx, List.getElem?_eq_getElem h, Option.map_some]

theorem rebased_bases (image : GuestImage) (base : Nat) (data : Nat → ByteBuffer) :
    (image.rebased base data).bases = image.bases := by
  apply List.ext_getElem?
  intro i
  show (List.map MemoryRegion.base (image.regions.mapIdx _))[i]? = (List.map MemoryRegion.base image.regions)[i]?
  rw [List.getElem?_map, List.getElem?_mapIdx, List.getElem?_map]
  cases image.regions[i]? with
  | none => rfl
  | some region => rfl

theorem byteAt_rebased (x : Nat) (data₁ : Nat → ByteBuffer) :
    (image.rebased base data).byteAt data₁ x = image.byteAt data₁ x := by
  unfold byteAt start
  rw [rebased_bases]

theorem valueAt_rebased (data₁ : Nat → ByteBuffer) (rva size : Nat) :
    (image.rebased base data).valueAt data₁ rva size = image.valueAt data₁ rva size := by
  unfold valueAt
  simp only [byteAt_rebased]

/-- An image with its own base and data is the same image. -/
theorem rebased_self (h : ∀ i < image.bases.length, data i = image.data i) :
    image.rebased image.imageBase data = image := by
  have hregions : image.regions.mapIdx (fun i region => { region with data := data i }) = image.regions := by
    apply List.ext_getElem?
    intro i
    rw [List.getElem?_mapIdx]
    cases hi : image.regions[i]? with
    | none => rfl
    | some region =>
      have hlt := (List.getElem?_eq_some_iff.mp hi).1
      have hdata : data i = region.data := by
        rw [h i (by rw [length_bases]; exact hlt)]
        unfold GuestImage.data
        rw [hi]
      rw [Option.map_some, hdata]
  unfold rebased
  rw [hregions]

/-! What is written in the ImageBase field. -/

/-- The ImageBase field of the header is written, and nothing else. -/
structure Written (image : GuestImage) (base : Nat) (data data' : Nat → ByteBuffer) : Prop where
  size : ∀ j, (data' j).size = (data j).size
  other : ∀ {j x}, (image.headerRegion = some j → ¬InBase (image.imageBaseField (data j)) x) →
    (data' j).byteAt x = (data j).byteAt x
  field : ∀ {first offset size x}, image.headerRegion = some first →
    image.imageBaseField (data first) = some (offset, size) → offset ≤ x → x < offset + size →
    (data' first).byteAt x = (toBytes size base).getD (x - offset) 0

theorem imageBaseField_fits {buf : ByteBuffer} {offset size : Nat} (h : image.imageBaseField buf = some (offset, size)) :
    offset + size ≤ buf.size := by
  unfold imageBaseField at h
  split at h
  next => cases h
  next metadata _ =>
    obtain ⟨hfits, hsome⟩ := (Option.ite_none_left_eq_some ..).mp h
    obtain ⟨rfl, rfl⟩ := Prod.mk.inj (Option.some.inj hsome)
    omega

theorem writeImageBase_written {buf : ByteBuffer} {first : Nat} (hfirst : image.headerRegion = some first)
    (h : image.writeImageBase (data first) base = .ok buf) :
    Written image base data (Function.update data first buf) := by
  unfold writeImageBase at h
  cases hfield : image.imageBaseField (data first) with
  | none =>
    rw [hfield] at h
    have hsame : Function.update data first buf = data := by
      rw [← Except.ok.inj h, Function.update_eq_self]
    rw [hsame]
    refine ⟨fun j => rfl, fun _ => rfl, fun {first' offset size x} hfirst' hfield' => ?_⟩
    rw [← Option.some.inj (hfirst.symm.trans hfirst'), hfield] at hfield'
    cases hfield'
  | some field =>
    obtain ⟨offset, size⟩ := field
    rw [hfield] at h
    simp only at h
    split at h
    next hlt =>
      have hfits := imageBaseField_fits hfield
      have hslice : offset + (toBytes size base).length ≤ (data first).size := by
        rw [toBytes_length]
        exact hfits
      rw [← Except.ok.inj h]
      refine ⟨fun j => ?_, fun {j x} hout => ?_, fun {first' offset' size' x} hfirst' hfield' hle hx => ?_⟩
      · by_cases hj : j = first
        · rw [hj, Function.update_self, ByteBuffer.setSlice_size hslice]
        · rw [Function.update_of_ne hj]
      · by_cases hj : j = first
        · rw [hj, Function.update_self, ByteBuffer.byteAt_setSlice hslice, toBytes_length]
          rw [hj] at hout
          exact if_neg fun hin => hout hfirst ⟨offset, size, hfield, hin⟩
        · rw [Function.update_of_ne hj]
      · rw [← Option.some.inj (hfirst.symm.trans hfirst')] at hfield' ⊢
        rw [hfield] at hfield'
        obtain ⟨rfl, rfl⟩ := Prod.mk.inj (Option.some.inj hfield')
        rw [Function.update_self, ByteBuffer.byteAt_setSlice hslice, toBytes_length, if_pos ⟨hle, hx⟩]
    next => cases h

theorem relocateData_cases (h : image.relocateData base = .ok data') : (base = image.imageBase ∧ data' = image.data) ∨
    (base ≠ image.imageBase ∧ ∃ data, image.applyRelocations (base - image.imageBase) image.data = .ok data ∧
      Written image base data data') := by
  unfold relocateData at h
  split at h
  next hbase => exact Or.inl ⟨hbase, (Except.ok.inj h).symm⟩
  next hbase =>
    split at h
    next => cases h
    next =>
      obtain ⟨data, hdata, hrest⟩ := except_bind_eq_ok h
      refine Or.inr ⟨hbase, data, hdata, ?_⟩
      cases hfirst : image.headerRegion with
      | none =>
        rw [hfirst] at hrest
        rw [← Except.ok.inj hrest]
        exact ⟨fun j => rfl, fun _ => rfl, fun hsome => by rw [hfirst] at hsome; cases hsome⟩
      | some first =>
        rw [hfirst] at hrest
        obtain ⟨buf, hbuf, hdone⟩ := except_bind_eq_ok hrest
        rw [← Except.ok.inj hdone]
        exact writeImageBase_written hfirst hbuf

end GuestImage

end

section

namespace GuestImage

variable {image : GuestImage} {base : Nat} {data data' : Nat → ByteBuffer} {r : BaseRelocation}

/-- Without a start inside it, a field is in the region of its first byte. -/
theorem valueAt_eq_fieldAt {i rva size : Nat} (hi : regionOf image.bases rva = some i)
    (hnone : ∀ j < image.bases.length, ¬(rva < image.start j ∧ image.start j < rva + size)) :
    image.valueAt data rva size = (data i).fieldAt (rva - image.start i) size := by
  have hstart : image.start i ≤ rva := (regionOf_eq_some hi).2.1
  unfold valueAt ByteBuffer.fieldAt
  congr 1
  apply List.map_congr_left
  intro k hk
  rw [List.mem_range] at hk
  have hregion : regionOf image.bases (rva + k) = some i := by
    rw [← hi]
    refine regionOf_congr fun j hj => ?_
    have hno := hnone j hj
    unfold start at hno
    omega
  unfold byteAt
  rw [hregion]
  show (data i).byteAt (rva + k - image.start i) = _
  rw [Nat.sub_add_comm hstart]

/-- The header is at RVA 0, so its offsets are RVAs. -/
theorem headerRegion_start {first : Nat} (h : image.headerRegion = some first) : image.start first = 0 := by
  unfold headerRegion at h
  split at h
  next =>
    obtain ⟨hzero, hfirst⟩ := (Option.ite_none_right_eq_some ..).mp h
    rw [← Option.some.inj hfirst]
    exact hzero
  next => cases h

theorem headerRegion_lt {first : Nat} (h : image.headerRegion = some first) : first < image.bases.length := by
  unfold headerRegion at h
  split at h
  next order rest horder =>
    obtain ⟨_, hfirst⟩ := (Option.ite_none_right_eq_some ..).mp h
    rw [← Option.some.inj hfirst, ← mem_regionOrder, horder]
    exact List.mem_cons_self
  next => cases h

theorem baseField_eq (hbase : base ≠ image.imageBase)
    (hdata : image.applyRelocations (base - image.imageBase) image.data = .ok data) {first : Nat}
    (hfirst : image.headerRegion = some first) : image.baseField base = image.imageBaseField (data first) := by
  unfold baseField
  rw [if_neg hbase, hdata, hfirst]
  rfl

theorem relocation_value (hok : image.relocateData base = .ok data') (hcond : base = image.imageBase ∨ image.NoneCrosses)
    {k : Nat} (hk : (image.relocations.getD [])[k]? = some r) (hapart : image.Apart k r)
    (hout : ∀ x, r.InField x → ¬InBase (image.baseField base) x) :
    (image.valueAt data' r.rva r.size : Int) =
      (image.valueAt image.data r.rva r.size + (base - image.imageBase)) % 2 ^ (8 * r.size) := by
  cases relocateData_cases hok with
  | inl hsame =>
    have hlt := image.valueAt_lt image.data r.rva r.size
    have hcast : ((2 ^ (8 * r.size) : Nat) : Int) = 2 ^ (8 * r.size) := by
      rw [Int.natCast_pow]
      rfl
    rw [hsame.1, hsame.2, Int.sub_self, Int.add_zero, Int.emod_eq_of_lt (Int.natCast_nonneg _) (by omega)]
  | inr hmoved =>
    obtain ⟨hbase, data, hdata, hwritten⟩ := hmoved
    have hcross := hcond.resolve_left hbase
    by_cases hsize : r.size = 0
    · have hzero : ∀ data, image.valueAt data r.rva r.size = 0 := by
        intro data
        rw [hsize]
        rfl
      rw [hzero, hzero, hsize]
      simp
    · have hr := List.mem_of_getElem? hk
      obtain ⟨i, hi, _, _⟩ := applyAll_inside hdata hr hsize
      have hnone : ∀ j < image.bases.length, ¬(r.rva < image.start j ∧ image.start j < r.rva + r.size) := hcross r hr
      have hstart : image.start i ≤ r.rva := (regionOf_eq_some hi).2.1
      have hwrite : (data' i).fieldAt (r.rva - image.start i) r.size =
          (data i).fieldAt (r.rva - image.start i) r.size := by
        refine ByteBuffer.fieldAt_congr fun x hle hlt => hwritten.other fun hheader hin => ?_
        have hzero : image.start i = 0 := headerRegion_start hheader
        rw [← baseField_eq hbase hdata hheader] at hin
        exact hout x ⟨by omega, by omega⟩ hin
      have happlied := applyAll_field hdata hk hsize hi fun {k' r'} hne hk' x hx hx' =>
        hapart hne hk' (image.start i + x) hx.2 hx'.2
      have hpos : (0 : Int) < 2 ^ (8 * r.size) := Int.pow_pos (by decide)
      rw [valueAt_eq_fieldAt hi hnone, valueAt_eq_fieldAt hi hnone, hwrite, happlied,
        Int.toNat_of_nonneg (Int.emod_nonneg _ (by omega))]

theorem relocation_frame (hok : image.relocateData base = .ok data') {x : Nat}
    (hout : ∀ r ∈ image.relocations.getD [], ¬r.InField x) (hbaseout : ¬InBase (image.baseField base) x) :
    image.byteAt data' x = image.byteAt image.data x := by
  cases relocateData_cases hok with
  | inl hsame => rw [hsame.2]
  | inr hmoved =>
    obtain ⟨hbase, data, hdata, hwritten⟩ := hmoved
    unfold byteAt
    cases hx : regionOf image.bases x with
    | none => rfl
    | some j =>
      have hstart : image.start j ≤ x := (regionOf_eq_some hx).2.1
      show (data' j).byteAt (x - image.start j) = (image.data j).byteAt (x - image.start j)
      have hwrite : (data' j).byteAt (x - image.start j) = (data j).byteAt (x - image.start j) := by
        refine hwritten.other fun hheader hin => ?_
        have hzero : image.start j = 0 := headerRegion_start hheader
        rw [← baseField_eq hbase hdata hheader, hzero] at hin
        exact hbaseout hin
      rw [hwrite]
      refine applyAll_byteAt hdata fun r hr htouches => hout r hr ?_
      have hrange := htouches.2
      exact ⟨by omega, by omega⟩

/-! How far the regions grow. -/

theorem relocation_below (hdisjoint : image.Disjoint) (hok : image.relocateData base = .ok data')
    (hcond : base = image.imageBase ∨ image.NoneCrosses) {i j : Nat} (hi : i < image.bases.length)
    (hj : j < image.bases.length) (hij : image.start i < image.start j) :
    image.start i + (data' i).size ≤ image.start j := by
  have hapart := hdisjoint.apart hi hj hij
  cases relocateData_cases hok with
  | inl hsame =>
    rw [hsame.2]
    exact hapart
  | inr hmoved =>
    obtain ⟨hbase, data, hdata, hwritten⟩ := hmoved
    have hcross := hcond.resolve_left hbase
    have hbound : (data i).size ≤ image.start j - image.start i := by
      refine applyAll_bound hdata (by omega) fun r hr _ hregion => ?_
      have hlast := (regionOf_eq_some hregion).2.2 j hj
      have hnone := hcross r hr j hj
      unfold start at hnone hij ⊢
      omega
    rw [hwritten.size]
    omega

theorem relocation_inside (hok : image.relocateData base = .ok data') {i : Nat}
    (hfits : image.start i + (image.data i).size ≤ image.imageSize) :
    image.start i + (data' i).size ≤ image.imageSize := by
  cases relocateData_cases hok with
  | inl hsame =>
    rw [hsame.2]
    exact hfits
  | inr hmoved =>
    obtain ⟨hbase, data, hdata, hwritten⟩ := hmoved
    have hbound : (data i).size ≤ image.imageSize - image.start i := by
      refine applyAll_bound hdata (by omega) fun r hr hsize _ => ?_
      obtain ⟨_, _, himage, _⟩ := applyAll_inside hdata hr hsize
      omega
    rw [hwritten.size]
    omega

/-- A field that goes past the start of a region makes its own region grow over it. -/
theorem noneCrosses_of_below (hok : image.relocateData base = .ok data') (hbase : base ≠ image.imageBase)
    (hbelow : ∀ {i j}, i < image.bases.length → j < image.bases.length → image.start i < image.start j →
      image.start i + (data' i).size ≤ image.start j) : image.NoneCrosses := by
  intro r hr j hj hcross
  cases relocateData_cases hok with
  | inl hsame => exact hbase hsame.1
  | inr hmoved =>
    obtain ⟨_, data, hdata, hwritten⟩ := hmoved
    obtain ⟨i, hi, _, hgrown⟩ := applyAll_inside hdata hr (by omega)
    obtain ⟨hilt, hile, _⟩ := regionOf_eq_some hi
    have hstart : image.start i ≤ r.rva := hile
    have hle := hbelow hilt hj (by omega)
    rw [hwritten.size] at hle
    omega

/-- The ImageBase field holds the base. -/
theorem relocation_base (hdisjoint : image.Disjoint) (hok : image.relocateData base = .ok data')
    (hcond : base = image.imageBase ∨ image.NoneCrosses) {offset size x : Nat}
    (hfield : image.baseField base = some (offset, size)) (hle : offset ≤ x) (hlt : x < offset + size) :
    image.byteAt data' x = (toBytes size base).getD (x - offset) 0 := by
  cases relocateData_cases hok with
  | inl hsame =>
    unfold baseField at hfield
    rw [if_pos hsame.1] at hfield
    cases hfield
  | inr hmoved =>
    obtain ⟨hbase, data, hdata, hwritten⟩ := hmoved
    cases hfirst : image.headerRegion with
    | none =>
      unfold baseField at hfield
      rw [if_neg hbase, hdata, hfirst] at hfield
      cases hfield
    | some first =>
      have hzero := headerRegion_start hfirst
      have hfirstlt : first < image.bases.length := headerRegion_lt hfirst
      rw [baseField_eq hbase hdata hfirst] at hfield
      have hfits := imageBaseField_fits hfield
      have hregion : regionOf image.bases x = some first := by
        obtain ⟨i, hi⟩ := Option.isSome_iff_exists.mp
          (@regionOf_isSome image.bases x first hfirstlt (by unfold start at hzero; omega))
        obtain ⟨hilt, hile, _⟩ := regionOf_eq_some hi
        have hstart : image.start i = 0 := by
          by_contra hpos
          have hbelow := relocation_below hdisjoint hok hcond hfirstlt hilt (by omega)
          rw [hwritten.size] at hbelow
          have hile' : image.start i ≤ x := hile
          omega
        have hsame : i = first := by
          have hgeti : image.bases[i] = 0 := by
            rw [← hstart]
            unfold start
            rw [List.getD_eq_getElem?_getD, List.getElem?_eq_getElem hilt, Option.getD_some]
          have hgetfirst : image.bases[first] = 0 := by
            rw [← hzero]
            unfold start
            rw [List.getD_eq_getElem?_getD, List.getElem?_eq_getElem hfirstlt, Option.getD_some]
          exact (List.Nodup.getElem_inj_iff hdisjoint.starts).mp (hgeti.trans hgetfirst.symm)
        rw [hi, hsame]
      unfold byteAt
      rw [hregion]
      show (data' first).byteAt (x - image.start first) = _
      rw [hzero, Nat.sub_zero]
      exact hwritten.field hfirst hfield hle hlt

end GuestImage

end

end Speakeasy
