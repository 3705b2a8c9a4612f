import Speakeasy.RelocationRuns

namespace Speakeasy

namespace GuestImage

variable {image image' : GuestImage} {base base₂ : Nat} {data data' data₂ data₁₂ : Nat → ByteBuffer} {r : BaseRelocation}

theorem relocateImage_ok {base : Int} (h : image.relocateImage base = .ok image') :
    ∃ data, image.relocateData base.toNat = .ok data ∧ image' = image.atBase base.toNat data := by
  unfold relocateImage at h
  split at h
  next => cases h
  next =>
    obtain ⟨data, hdata, hdone⟩ := except_bind_eq_ok h
    exact ⟨data, hdata, (Except.ok.inj hdone).symm⟩

theorem byteAt_atBase (x : Nat) : image.byteAt (image.atBase base data).data x = image.byteAt data x :=
  byteAt_congr (fun _ hj => atBase_data hj) x

theorem rebased_congr (h : ∀ i < image.bases.length, data i = data' i) :
    image.rebased base data = image.rebased base data' := by
  have hregions : image.regions.mapIdx (fun i region => { region with data := data i }) =
      image.regions.mapIdx fun i region => { region with data := data' i } := by
    apply List.ext_getElem?
    intro i
    rw [List.getElem?_mapIdx, List.getElem?_mapIdx]
    cases hi : image.regions[i]? with
    | none => rfl
    | some region =>
      have hlt := (List.getElem?_eq_some_iff.mp hi).1
      rw [Option.map_some, Option.map_some, h i (by rw [length_bases]; exact hlt)]
  unfold rebased
  rw [hregions]

theorem rebased_start (i : Nat) : (image.rebased base data).start i = image.start i := by
  unfold start
  rw [rebased_bases]

theorem rebased_noneCrosses (h : image.NoneCrosses) : (image.rebased base data).NoneCrosses := by
  intro r hr j hj
  rw [rebased_bases] at hj
  rw [rebased_start]
  exact h r hr j hj

/-- The relocated image has disjoint regions, as the image has. -/
theorem rebased_disjoint (hdisjoint : image.Disjoint) (hok : image.relocateData base = .ok data)
    (hcond : base = image.imageBase ∨ image.NoneCrosses) : (image.rebased base data).Disjoint where
  starts := by
    rw [rebased_bases]
    exact hdisjoint.starts
  apart {i j} hi hj hij := by
    rw [rebased_bases] at hi hj
    rw [rebased_start, rebased_start] at hij ⊢
    rw [rebased_data hi]
    exact relocation_below hdisjoint hok hcond hi hj hij

theorem twice_frame (hok : image.relocateData base = .ok data)
    (hok₁₂ : (image.rebased base data).relocateData base₂ = .ok data₁₂) (hok₂ : image.relocateData base₂ = .ok data₂)
    {x : Nat} (hfield : ∀ r ∈ image.relocations.getD [], ¬r.InField x)
    (hout : ¬InBase (image.baseField base) x ∧ ¬InBase ((image.rebased base data).baseField base₂) x ∧
      ¬InBase (image.baseField base₂) x) : image.byteAt data₁₂ x = image.byteAt data₂ x := by
  have hframe := relocation_frame hok hfield hout.1
  have hframe₂ := relocation_frame hok₂ hfield hout.2.2
  have hframe₁₂ := relocation_frame hok₁₂ hfield hout.2.1
  rw [byteAt_rebased, byteAt_rebased] at hframe₁₂
  rw [hframe₁₂, byteAt_congr (fun _ hj => rebased_data hj) x, hframe, hframe₂]

section

variable (hcross : image.NoneCrosses) (hok : image.relocateData base = .ok data)
  (hok₁₂ : (image.rebased base data).relocateData base₂ = .ok data₁₂) (hok₂ : image.relocateData base₂ = .ok data₂)

include hcross hok hok₁₂ hok₂

/-- Two relocations add the sum of their differences. -/
theorem twice_value {k x : Nat} (hk : (image.relocations.getD [])[k]? = some r) (hapart : image.Apart k r)
    (hout : ∀ x, r.InField x → ¬InBase (image.baseField base) x ∧
      ¬InBase ((image.rebased base data).baseField base₂) x ∧ ¬InBase (image.baseField base₂) x)
    (hx : r.InField x) : image.byteAt data₁₂ x = image.byteAt data₂ x := by
  have hvalue := relocation_value hok (Or.inr hcross) hk hapart fun x hx => (hout x hx).1
  have hvalue₂ := relocation_value hok₂ (Or.inr hcross) hk hapart fun x hx => (hout x hx).2.2
  have hvalue₁₂ := relocation_value hok₁₂ (Or.inr (rebased_noneCrosses hcross)) hk hapart fun x hx => (hout x hx).2.1
  have hfirst : image.valueAt (image.rebased base data).data r.rva r.size = image.valueAt data r.rva r.size :=
    valueAt_congr fun x _ _ => byteAt_congr (fun _ hj => rebased_data hj) x
  rw [valueAt_rebased, valueAt_rebased, hfirst, hvalue, Int.emod_add_emod] at hvalue₁₂
  have hsum : (image.valueAt image.data r.rva r.size : Int) + (base - image.imageBase) + (base₂ - base) =
      image.valueAt image.data r.rva r.size + (base₂ - image.imageBase) := by omega
  have hbase : (image.rebased base data).imageBase = base := rfl
  rw [hbase, hsum, ← hvalue₂] at hvalue₁₂
  exact byteAt_of_valueAt (Int.ofNat.inj hvalue₁₂) hx.1 hx.2

/-- Both images hold the last base, where the header did not move. -/
theorem twice_base (hdisjoint : image.Disjoint) {x : Nat} (hin : InBase (image.baseField base₂) x)
    (hsame : (image.rebased base data).baseField base₂ = image.baseField base₂) :
    image.byteAt data₁₂ x = image.byteAt data₂ x := by
  obtain ⟨offset, size, hfield, hle, hlt⟩ := hin
  have hbase₂ := relocation_base hdisjoint hok₂ (Or.inr hcross) hfield hle hlt
  have hbase₁₂ := relocation_base (rebased_disjoint hdisjoint hok (Or.inr hcross)) hok₁₂
    (Or.inr (rebased_noneCrosses hcross)) (hsame.trans hfield) hle hlt
  rw [byteAt_rebased] at hbase₁₂
  rw [hbase₁₂, hbase₂]

end

/-- Two relocations give the bytes of one. -/
theorem twice_byteAt (hdisjoint : image.Disjoint) (hok : image.relocateData base = .ok data)
    (hcond : base = image.imageBase ∨ image.NoneCrosses)
    (hok₁₂ : (image.rebased base data).relocateData base₂ = .ok data₁₂) (hok₂ : image.relocateData base₂ = .ok data₂)
    (hfields : ∀ {k r}, (image.relocations.getD [])[k]? = some r → image.Apart k r ∧ ∀ x, r.InField x →
      ¬InBase (image.baseField base) x ∧ ¬InBase ((image.rebased base data).baseField base₂) x ∧
        ¬InBase (image.baseField base₂) x)
    {x : Nat} (hx : ¬InBase (image.baseField base) x ∧ ¬InBase ((image.rebased base data).baseField base₂) x ∧
        ¬InBase (image.baseField base₂) x ∨
      InBase (image.baseField base₂) x ∧ (image.rebased base data).baseField base₂ = image.baseField base₂) :
    image.byteAt data₁₂ x = image.byteAt data₂ x := by
  by_cases hbase : base = image.imageBase
  · -- The first relocation changes nothing, so that the second starts at the same image.
    have hdata : data = image.data := by
      cases relocateData_cases hok with
      | inl hsame => exact hsame.2
      | inr hmoved => exact absurd hbase hmoved.1
    rw [hbase, rebased_self fun i _ => congrFun hdata i] at hok₁₂
    rw [Except.ok.inj (hok₁₂.symm.trans hok₂)]
  · have hcross := hcond.resolve_left hbase
    cases hx with
    | inl hout =>
      by_cases hfield : ∃ r ∈ image.relocations.getD [], r.InField x
      · obtain ⟨r, hr, hin⟩ := hfield
        obtain ⟨k, hk⟩ := List.mem_iff_getElem?.mp hr
        obtain ⟨hapart, hr⟩ := hfields hk
        exact twice_value hcross hok hok₁₂ hok₂ hk hapart hr hin
      · exact twice_frame hok hok₁₂ hok₂ (fun r hr hin => hfield ⟨r, hr, hin⟩) hout
    | inr hin => exact twice_base hcross hok hok₁₂ hok₂ hdisjoint hin.1 hin.2

theorem atBase_regions : (image.atBase base data).regions.map (fun region => (region.base, region.name, region.perms)) =
    image.regions.map fun region => (base + region.base, region.name, region.perms) := by
  apply List.ext_getElem?
  intro i
  show (List.map _ (image.regions.mapIdx _))[i]? = _
  rw [List.getElem?_map, List.getElem?_mapIdx, List.getElem?_map]
  cases image.regions[i]? with
  | none => rfl
  | some region => rfl

theorem relocationLaw_of_cond (hdisjoint : image.Disjoint) {base : Int} (hok : image.relocateImage base = .ok image')
    (hcond : base.toNat = image.imageBase ∨ image.NoneCrosses) : image.RelocationLaw base.toNat image' := by
  obtain ⟨data, hdata, rfl⟩ := relocateImage_ok hok
  have hrebased := @rebased_congr image base.toNat _ data fun i hi => @atBase_data image base.toNat data i hi
  refine ⟨fun {k r} hk hapart hout => ?_, fun {x} hfield hout => ?_, rfl, atBase_regions, fun {i j} hi hj hij => ?_,
    fun {i} hi hfits => ?_, fun {base₂ image₁₂ image₂} hok₁₂ hok₂ hfields x hx => ?_⟩
  · rw [valueAt_congr fun x _ _ => byteAt_atBase x]
    exact relocation_value hdata hcond hk hapart hout
  · rw [byteAt_atBase]
    exact relocation_frame hdata hfield hout
  · rw [atBase_data hi]
    exact relocation_below hdisjoint hdata hcond hi hj hij
  · rw [atBase_data hi]
    exact relocation_inside hdata hfits
  · rw [hrebased] at hok₁₂ hfields hx
    obtain ⟨data₁₂, hdata₁₂, rfl⟩ := relocateImage_ok hok₁₂
    obtain ⟨data₂, hdata₂, rfl⟩ := relocateImage_ok hok₂
    have hafter : image.byteAt ((image.rebased base.toNat data).atBase base₂.toNat data₁₂).data x =
        image.byteAt data₁₂ x := by
      rw [← @byteAt_rebased image base.toNat data, byteAt_atBase, byteAt_rebased]
    rw [hafter, byteAt_atBase]
    exact twice_byteAt hdisjoint hdata hcond hdata₁₂ hdata₂ hfields hx

/-- The law holds of a relocation exactly where no field goes past the start of a region. -/
theorem relocationLaw_iff (hdisjoint : image.Disjoint) {base : Int} (hok : image.relocateImage base = .ok image') :
    image.RelocationLaw base.toNat image' ↔ base.toNat = image.imageBase ∨ image.NoneCrosses := by
  constructor
  · intro hlaw
    by_cases hbase : base.toNat = image.imageBase
    · exact Or.inl hbase
    · obtain ⟨data, hdata, rfl⟩ := relocateImage_ok hok
      refine Or.inr (noneCrosses_of_below hdata hbase fun {i j} hi hj hij => ?_)
      have hbelow := hlaw.below hi hj hij
      rwa [atBase_data hi] at hbelow
  · exact relocationLaw_of_cond hdisjoint hok

/-- An image of eight byte regions, with a HIGHLOW relocation at an RVA. -/
def smallImage (starts : List Nat) (rva : Nat) : GuestImage where
  arch := .x86
  moduleType := .exe
  name := []
  emuPath := []
  imageBase := 0x400000
  imageSize := 16
  regions := starts.map fun start => ⟨start, ⟨8, fun _ => 1⟩, [], 7⟩
  imports := []
  exports := []
  entryPoints := []
  relocations := some [⟨rva, imageRelBasedHighlow⟩]

theorem smallImage_disjoint (rva : Nat) : (smallImage [0, 8] rva).Disjoint where
  starts := by
    show [0, 8].Nodup
    simp
  apart {i j} hi hj hij := by
    have hi : i < 2 := hi
    have hj : j < 2 := hj
    match i, j, hij with
    | 0, 1, _ => exact Nat.le_refl 8
    | 0, 0, hij => exact absurd hij (Nat.lt_irrefl 0)
    | 1, 0, hij => exact absurd hij (Nat.not_lt_zero 8)
    | 1, 1, hij => exact absurd hij (Nat.lt_irrefl 8)

theorem relocationLaw_iff_inside : ∃ image', (smallImage [0, 8] 3).relocateImage 0x500000 = .ok image' ∧
    ((smallImage [0, 8] 3).RelocationLaw (0x500000 : Int).toNat image' ↔
      (0x500000 : Int).toNat = 0x400000 ∨ (smallImage [0, 8] 3).NoneCrosses) :=
  ⟨_, rfl, relocationLaw_iff (smallImage_disjoint 3) rfl⟩

/-- A field over the start of the second region makes the first one grow to ten bytes. -/
theorem relocationLaw_crossing : ¬∀ image base image', GuestImage.Disjoint image → image.relocateImage base = .ok image' →
    image.RelocationLaw base.toNat image' := by
  intro hlaw
  have hcrossing : ∃ image', (smallImage [0, 8] 6).relocateImage 0x500000 = .ok image' ∧ (image'.data 0).size = 10 :=
    ⟨_, rfl, rfl⟩
  obtain ⟨image', hok, hsize⟩ := hcrossing
  have hbelow := @(hlaw _ _ _ (smallImage_disjoint 6) hok).below 0 1 (by show 0 < 2; omega) (by show 1 < 2; omega)
    (by show 0 < 8; omega)
  rw [hsize] at hbelow
  exact absurd hbelow (by show ¬0 + 10 ≤ 8; omega)

end GuestImage

end Speakeasy
