import Speakeasy.StrFormat

namespace Speakeasy

variable {arch : Arch}

/-- The slots that `get_va_arg_count` counts for a conversion. -/
def FormatSpec.countedSlots (arch : Arch) (spec : FormatSpec) : Nat :=
  ((spec.getFormatSlotSizes arch.ptrSize).map (· / arch.ptrSize)).sum

/-- The slots that a turn of `do_str_format` takes. -/
def FormatSpec.takenSlots (arch : Arch) (spec : FormatSpec) : Nat :=
  if spec.conv = '%' then 0 else spec.countedSlots arch

/-- A `%%` with a `*`. -/
def FormatSpec.IsStarredPercent (spec : FormatSpec) : Prop := spec.conv = '%' ∧ 0 < spec.stars

/-- A width or a precision with more digits than `int` takes. -/
def FormatField.tooLong : FormatField → Bool
  | .star => false
  | .digits text => 4300 < text.length

def FormatSpec.tooLong (spec : FormatSpec) : Bool :=
  spec.width.any FormatField.tooLong || spec.precision.any FormatField.tooLong

/-- A conversion of an argument whose width or precision `int` does not take. -/
def FormatSpec.IsOverlong (spec : FormatSpec) : Prop := spec.conv ≠ '%' ∧ spec.tooLong = true

theorem getVaArgCount_eq (arch : Arch) (specs : List FormatSpec) :
    getVaArgCount arch specs = (specs.map (·.countedSlots arch)).sum := by
  unfold getVaArgCount
  induction specs with
  | nil => rfl
  | cons spec specs ih =>
    rw [List.flatMap_cons, List.map_append, List.sum_append, List.map_cons, List.sum_cons, ih]
    rfl

namespace FormatSpec

theorem getFormatSlotSizes_percent {spec : FormatSpec} (h : spec.conv = '%') (ptrSize : Nat) :
    spec.getFormatSlotSizes ptrSize = List.replicate spec.stars ptrSize := by
  unfold getFormatSlotSizes
  simp [h]

theorem getFormatSlotSizes_value {spec : FormatSpec} (h : spec.conv ≠ '%') (ptrSize : Nat) :
    ∃ size, spec.getFormatSlotSizes ptrSize = List.replicate spec.stars ptrSize ++ [size] ∧
      (spec.conv ∈ "eEfFgGaA".toList → size = 8) := by
  unfold getFormatSlotSizes
  by_cases hint : spec.conv ∈ "diouxX".toList
  · have hapart : ∀ c ∈ ['d', 'i', 'o', 'u', 'x', 'X'], c ∉ ['e', 'E', 'f', 'F', 'g', 'G', 'a', 'A'] := by simp
    exact ⟨_, by rw [if_pos hint], fun hfloat => absurd hfloat (hapart _ hint)⟩
  · by_cases hfloat : spec.conv ∈ "eEfFgGaA".toList
    · exact ⟨8, by rw [if_neg hint, if_pos hfloat], fun _ => rfl⟩
    · exact ⟨ptrSize, by rw [if_neg hint, if_neg hfloat, if_pos h], fun hin => absurd hin hfloat⟩

/-- A conversion counts a slot for each `*`, and its value. -/
theorem countedSlots_percent {spec : FormatSpec} (h : spec.conv = '%') : spec.countedSlots arch = spec.stars := by
  have hptr := arch.ptrSize_pos
  unfold countedSlots
  rw [getFormatSlotSizes_percent h, List.map_replicate, Nat.div_self hptr, List.sum_replicate_nat, Nat.mul_one]

theorem takenSlots_le (arch : Arch) (spec : FormatSpec) : spec.takenSlots arch ≤ spec.countedSlots arch := by
  unfold takenSlots
  split
  next => exact Nat.zero_le _
  next => exact Nat.le_refl _

theorem takenSlots_eq_iff (arch : Arch) (spec : FormatSpec) :
    spec.takenSlots arch = spec.countedSlots arch ↔ ¬spec.IsStarredPercent := by
  unfold takenSlots IsStarredPercent
  split
  next hpercent =>
    rw [countedSlots_percent hpercent]
    constructor
    · intro h hstar
      omega
    · intro h
      have hstars : ¬0 < spec.stars := fun hpos => h ⟨hpercent, hpos⟩
      omega
  next hpercent => exact iff_of_true rfl fun h => hpercent h.1

end FormatSpec

namespace FormatGuest

variable {guest : FormatGuest} {wide : Bool}

theorem nextValue_slots (count i : Nat) (slots : List Nat) :
    (nextValue arch count i slots).2 = slots.drop count := by
  induction count generalizing i slots with
  | zero => rfl
  | succ count ih =>
    unfold nextValue
    show (nextValue arch count (i + 1) slots.tail).2 = slots.drop (count + 1)
    rw [ih, ← List.drop_one, List.drop_drop, Nat.add_comm]

theorem nextValue_lt (count i : Nat) {slots : List Nat} (h : ∀ slot ∈ slots, slot < 2 ^ (arch.ptrSize * 8)) :
    (nextValue arch count i slots).1 < 2 ^ ((i + count) * arch.ptrSize * 8) := by
  induction count generalizing i slots with
  | zero => exact Nat.pow_pos (by decide)
  | succ count ih =>
    have hhead : slots.headD 0 < 2 ^ (arch.ptrSize * 8) := by
      cases slots with
      | nil => exact Nat.pow_pos (by decide)
      | cons slot slots => exact h slot List.mem_cons_self
    have hrest := ih (i + 1) fun slot hslot => h slot (List.mem_of_mem_tail hslot)
    have hbits : i * arch.ptrSize * 8 + arch.ptrSize * 8 ≤ (i + (count + 1)) * arch.ptrSize * 8 := by
      rw [← Nat.add_mul, ← Nat.succ_mul]
      exact Nat.mul_le_mul_right _ (Nat.mul_le_mul_right _ (by omega))
    have hshift : slots.headD 0 <<< (i * arch.ptrSize * 8) < 2 ^ ((i + (count + 1)) * arch.ptrSize * 8) := by
      rw [Nat.shiftLeft_eq]
      calc slots.headD 0 * 2 ^ (i * arch.ptrSize * 8)
          < 2 ^ (arch.ptrSize * 8) * 2 ^ (i * arch.ptrSize * 8) :=
            Nat.mul_lt_mul_of_pos_right hhead (Nat.pow_pos (by decide))
        _ = 2 ^ (i * arch.ptrSize * 8 + arch.ptrSize * 8) := by rw [← Nat.pow_add, Nat.add_comm]
        _ ≤ 2 ^ ((i + (count + 1)) * arch.ptrSize * 8) := Nat.pow_le_pow_right (by decide) hbits
    have hcount : i + 1 + count = i + (count + 1) := by omega
    rw [hcount] at hrest
    exact Nat.or_lt_two_pow hshift hrest

theorem nextValue_zeros (count i : Nat) {slots : List Nat} (h : ∀ slot ∈ slots, slot = 0) :
    (nextValue arch count i slots).1 = 0 := by
  induction count generalizing i slots with
  | zero => rfl
  | succ count ih =>
    have hhead : slots.headD 0 = 0 := by
      cases slots with
      | nil => rfl
      | cons slot slots => exact h slot List.mem_cons_self
    have hrest := ih (i + 1) fun slot hslot => h slot (List.mem_of_mem_tail hslot)
    unfold nextValue
    show slots.headD 0 <<< (i * arch.ptrSize * 8) ||| (nextValue arch count (i + 1) slots.tail).1 = 0
    rw [hhead, hrest]
    simp

/-- The reads of the guest do not fail. -/
def Readable (guest : FormatGuest) : Prop :=
  (∀ address size, (guest.memRead address size).isSome) ∧ (∀ address, (guest.readPtr address).isSome) ∧
    (∀ address, (guest.readString address).isSome) ∧ ∀ address, (guest.readWideString address).isSome

/-- Slots of which every conversion has a text. -/
def Convertible (arch : Arch) (guest : FormatGuest) (slots : List Nat) : Prop :=
  (∀ slot ∈ slots, slot < 2 ^ (arch.ptrSize * 8)) ∧ ((∀ slot ∈ slots, slot = 0) ∨ guest.Readable)

theorem Convertible.drop {slots : List Nat} (h : Convertible arch guest slots) (n : Nat) :
    Convertible arch guest (slots.drop n) := by
  refine ⟨fun slot hslot => h.1 slot (List.mem_of_mem_drop hslot), ?_⟩
  cases h.2 with
  | inl hzero => exact Or.inl fun slot hslot => hzero slot (List.mem_of_mem_drop hslot)
  | inr hread => exact Or.inr hread

theorem stringText_exists {spec : FormatSpec} {value : Nat} (h : value = 0 ∨ guest.Readable) :
    ∃ text, guest.stringText arch wide spec value = some text := by
  unfold stringText
  by_cases hzero : value = 0
  · exact ⟨_, if_pos hzero⟩
  · obtain ⟨hmem, hptr, hstring, hwide⟩ := h.resolve_left hzero
    obtain ⟨count, hcount⟩ := Option.isSome_iff_exists.mp (hmem value 2)
    obtain ⟨buf, hbuf⟩ := Option.isSome_iff_exists.mp (hptr (value + arch.ptrSize))
    obtain ⟨data, hdata⟩ := Option.isSome_iff_exists.mp (hmem buf (fromBytes count))
    obtain ⟨ansi, hansi⟩ := Option.isSome_iff_exists.mp (hstring value)
    obtain ⟨utf16, hutf16⟩ := Option.isSome_iff_exists.mp (hwide value)
    simp only [if_neg hzero, hcount, hbuf, Option.bind_eq_bind, Option.bind_some, hdata, hansi, hutf16]
    split
    next => exact ⟨_, rfl⟩
    next =>
      split
      next => exact ⟨_, rfl⟩
      next => exact ⟨_, rfl⟩

theorem convert_ok {spec : FormatSpec} {field : TextField} {size value : Nat}
    (hfloat : spec.conv ∈ "eEfFgGaA".toList → value < 2 ^ 64) (hread : value = 0 ∨ guest.Readable) :
    ∃ text, guest.convert arch wide spec field size value = .ok text := by
  obtain ⟨text, htext⟩ : ∃ text, guest.stringText arch wide spec value = some text := stringText_exists hread
  unfold convert
  simp only
  split
  next => exact ⟨_, rfl⟩
  next =>
    split
    next => exact ⟨_, rfl⟩
    next =>
      split
      next hconv =>
        rw [if_neg (Nat.not_le.mpr (hfloat hconv))]
        split
        next => exact ⟨_, rfl⟩
        next => exact ⟨_, rfl⟩
      next =>
        split
        next => exact ⟨_, rfl⟩
        next =>
          split
          next => exact ⟨_, rfl⟩
          next =>
            split
            next =>
              rw [htext]
              exact ⟨_, rfl⟩
            next => exact ⟨_, rfl⟩

/-- A `*` takes its slot and its size, and leaves the rest. -/
theorem takeWidth_rest (guest : FormatGuest) (arch : Arch) (spec : FormatSpec) (sizes slots : List Nat) :
    (guest.takeWidth arch spec (List.replicate ([spec.width].count (some .star)) arch.ptrSize ++ sizes) slots).2.2 =
      (sizes, slots.drop ([spec.width].count (some .star))) := by
  unfold takeWidth
  cases hwidth : spec.width with
  | none => rfl
  | some width =>
    cases width with
    | digits text => rfl
    | star =>
      have hcount : [some FormatField.star].count (some FormatField.star) = 1 := rfl
      have hone : arch.ptrSize / arch.ptrSize = 1 := Nat.div_self arch.ptrSize_pos
      simp only [hcount, List.replicate_one, List.singleton_append, List.headD_cons, List.tail_cons, hone,
        nextValue_slots]

theorem takePrecision_rest (guest : FormatGuest) (arch : Arch) (spec : FormatSpec) (sizes slots : List Nat) :
    (guest.takePrecision arch spec
        (List.replicate ([spec.precision].count (some .star)) arch.ptrSize ++ sizes) slots).2 =
      (sizes, slots.drop ([spec.precision].count (some .star))) := by
  unfold takePrecision
  cases hprecision : spec.precision with
  | none => rfl
  | some precision =>
    cases precision with
    | digits text => rfl
    | star =>
      have hcount : [some FormatField.star].count (some FormatField.star) = 1 := rfl
      have hone : arch.ptrSize / arch.ptrSize = 1 := Nat.div_self arch.ptrSize_pos
      simp only [hcount, List.replicate_one, List.singleton_append, List.headD_cons, List.tail_cons, hone,
        nextValue_slots]

theorem takeWidth_number (guest : FormatGuest) (arch : Arch) (spec : FormatSpec) (sizes slots : List Nat) :
    ∃ width, (guest.takeWidth arch spec sizes slots).2.1 =
      if spec.width.any FormatField.tooLong then .error .valueError else .ok width := by
  unfold takeWidth
  cases spec.width with
  | none => exact ⟨_, rfl⟩
  | some width =>
    cases width with
    | star => exact ⟨_, rfl⟩
    | digits text =>
      refine ⟨min (guest.digitsValue text) maxFormatField, ?_⟩
      by_cases hlong : 4300 < text.length <;> simp [fieldNumber, FormatField.tooLong, hlong]

theorem takePrecision_number (guest : FormatGuest) (arch : Arch) (spec : FormatSpec) (sizes slots : List Nat) :
    ∃ precision, (guest.takePrecision arch spec sizes slots).1 =
      if spec.precision.any FormatField.tooLong then .error .valueError else .ok precision := by
  unfold takePrecision
  cases spec.precision with
  | none => exact ⟨_, rfl⟩
  | some precision =>
    cases precision with
    | star => exact ⟨_, rfl⟩
    | digits text =>
      refine ⟨some (min (guest.digitsValue text) maxFormatField), ?_⟩
      by_cases hlong : 4300 < text.length <;> simp [fieldNumber, FormatField.tooLong, hlong, Except.map]

theorem stars_eq (spec : FormatSpec) :
    spec.stars = [spec.width].count (some .star) + [spec.precision].count (some .star) := by
  unfold FormatSpec.stars
  rw [← List.count_append]
  rfl

/-- A turn takes the slots that its sizes say, and fails when a field is too long or its conversion fails. -/
theorem formatSpec_eq (guest : FormatGuest) (arch : Arch) (wide : Bool) {spec : FormatSpec} (h : spec.conv ≠ '%')
    (state : FormatState) :
    ∃ field size, (spec.conv ∈ "eEfFgGaA".toList → size = 8) ∧
      guest.formatSpec arch wide state spec =
        if spec.tooLong then .error .valueError
        else (guest.convert arch wide spec field size
          (nextValue arch (size / arch.ptrSize) 0 (state.slots.drop spec.stars)).1).map
          fun text => ⟨state.out ++ text, state.slots.drop (spec.countedSlots arch)⟩ := by
  obtain ⟨size, hsizes, hfloat⟩ := FormatSpec.getFormatSlotSizes_value h arch.ptrSize
  have hcounted : spec.countedSlots arch = spec.stars + size / arch.ptrSize := by
    unfold FormatSpec.countedSlots
    rw [hsizes, List.map_append, List.sum_append, List.map_replicate, Nat.div_self arch.ptrSize_pos,
      List.sum_replicate_nat, Nat.mul_one]
    rfl
  rw [stars_eq, List.replicate_add, List.append_assoc] at hsizes
  rcases hwidth : guest.takeWidth arch spec (spec.getFormatSlotSizes arch.ptrSize) state.slots with
    ⟨flags, width, sizes₁, slots₁⟩
  rcases hprecision : guest.takePrecision arch spec sizes₁ slots₁ with ⟨precision, sizes₂, slots₂⟩
  have hrest := takeWidth_rest guest arch spec
    (List.replicate ([spec.precision].count (some .star)) arch.ptrSize ++ [size]) state.slots
  rw [← hsizes, hwidth] at hrest
  obtain ⟨rfl, rfl⟩ := Prod.mk.inj hrest
  have hrest := takePrecision_rest guest arch spec [size]
    (state.slots.drop ([spec.width].count (some .star)))
  rw [hprecision] at hrest
  obtain ⟨rfl, rfl⟩ := Prod.mk.inj hrest
  obtain ⟨width', hwidth'⟩ := takeWidth_number guest arch spec (spec.getFormatSlotSizes arch.ptrSize) state.slots
  obtain ⟨precision', hprecision'⟩ := takePrecision_number guest arch spec
    (List.replicate ([spec.precision].count (some .star)) arch.ptrSize ++ [size])
    (state.slots.drop ([spec.width].count (some .star)))
  rw [hwidth] at hwidth'
  rw [hprecision] at hprecision'
  refine ⟨⟨flags, width', precision'⟩, size, hfloat, ?_⟩
  unfold formatSpec FormatSpec.tooLong
  rw [if_neg h]
  simp only [hwidth, hprecision, show width = _ from hwidth', show precision = _ from hprecision']
  cases spec.width.any FormatField.tooLong with
  | true => rfl
  | false =>
    cases spec.precision.any FormatField.tooLong with
    | true => rfl
    | false =>
      simp only [List.headD_cons, List.drop_drop, ← stars_eq, nextValue_slots, ← hcounted]
      rfl

/-- A turn that does not fail has no field that is too long. -/
theorem formatPiece_short {state next : FormatState} {spec : FormatSpec} (hpercent : spec.conv ≠ '%')
    (h : guest.formatPiece arch wide state (.inr spec) = .ok next) : ¬spec.tooLong = true := by
  intro hlong
  obtain ⟨field, size, -, hturn⟩ := formatSpec_eq guest arch wide hpercent state
  rw [formatPiece, hturn, if_pos hlong] at h
  cases h

/-- The slots that a turn leaves. -/
theorem formatPiece_slots {state next : FormatState} {piece : Char ⊕ FormatSpec}
    (h : guest.formatPiece arch wide state piece = .ok next) :
    next.slots = state.slots.drop ((piece.getRight?.toList.map (·.takenSlots arch)).sum) := by
  cases piece with
  | inl c =>
    cases h
    rfl
  | inr spec =>
    show next.slots = state.slots.drop (spec.takenSlots arch + 0)
    unfold FormatSpec.takenSlots
    by_cases hpercent : spec.conv = '%'
    · have hnext : guest.formatSpec arch wide state spec = .ok ⟨state.out ++ ['%'], state.slots⟩ := by
        unfold formatSpec
        rw [if_pos hpercent]
      rw [if_pos hpercent, List.drop_zero]
      rw [formatPiece, hnext] at h
      cases h
      rfl
    · obtain ⟨field, size, -, hturn⟩ := formatSpec_eq guest arch wide hpercent state
      have hshort := formatPiece_short hpercent h
      rw [if_neg hpercent, Nat.add_zero]
      rw [formatPiece, hturn, if_neg hshort] at h
      cases hconvert : guest.convert arch wide spec field size
          (nextValue arch (size / arch.ptrSize) 0 (state.slots.drop spec.stars)).1 with
      | error e =>
        rw [hconvert] at h
        cases h
      | ok text =>
        rw [hconvert] at h
        cases h
        rfl

theorem formatPiece_ok (wide : Bool) {state : FormatState} (h : Convertible arch guest state.slots)
    {piece : Char ⊕ FormatSpec} (hpiece : ∀ spec ∈ piece.getRight?, ¬spec.IsOverlong) :
    ∃ next, guest.formatPiece arch wide state piece = .ok next := by
  cases piece with
  | inl c => exact ⟨_, rfl⟩
  | inr spec =>
    by_cases hpercent : spec.conv = '%'
    · refine ⟨⟨state.out ++ ['%'], state.slots⟩, ?_⟩
      rw [formatPiece, formatSpec, if_pos hpercent]
    · obtain ⟨field, size, hfloat, hturn⟩ :=
        formatSpec_eq guest arch wide hpercent state
      have hrest := h.drop spec.stars
      have hvalue : spec.conv ∈ "eEfFgGaA".toList →
          (nextValue arch (size / arch.ptrSize) 0 (state.slots.drop spec.stars)).1 < 2 ^ 64 := by
        intro hconv
        have hlt := nextValue_lt (size / arch.ptrSize) 0 hrest.1
        rw [hfloat hconv] at hlt ⊢
        cases arch with
        | x86 => exact hlt
        | amd64 => exact hlt
      have hread : (nextValue arch (size / arch.ptrSize) 0 (state.slots.drop spec.stars)).1 = 0 ∨
          guest.Readable := by
        cases hrest.2 with
        | inl hzero => exact Or.inl (nextValue_zeros _ _ hzero)
        | inr hread => exact Or.inr hread
      obtain ⟨text, htext⟩ : ∃ text, guest.convert arch wide spec field size
          (nextValue arch (size / arch.ptrSize) 0 (state.slots.drop spec.stars)).1 = .ok text :=
        convert_ok hvalue hread
      refine ⟨⟨state.out ++ text, state.slots.drop (spec.countedSlots arch)⟩, ?_⟩
      have hshort : ¬spec.tooLong = true := fun hlong => hpiece spec rfl ⟨hpercent, hlong⟩
      rw [formatPiece, hturn, if_neg hshort, htext]
      rfl

/-- The loop of `do_str_format`. -/
def formatPieces (guest : FormatGuest) (arch : Arch) (wide : Bool) (state : FormatState)
    (pieces : List (Char ⊕ FormatSpec)) : Except FormatError FormatState :=
  pieces.foldlM (guest.formatPiece arch wide) state

theorem formatPieces_cons (state : FormatState) (piece : Char ⊕ FormatSpec) (pieces : List (Char ⊕ FormatSpec)) :
    guest.formatPieces arch wide state (piece :: pieces) =
      (guest.formatPiece arch wide state piece).bind fun next => guest.formatPieces arch wide next pieces :=
  List.foldlM_cons

theorem formatPieces_slots {state last : FormatState} {pieces : List (Char ⊕ FormatSpec)}
    (h : guest.formatPieces arch wide state pieces = .ok last) :
    last.slots = state.slots.drop (((pieces.filterMap Sum.getRight?).map (·.takenSlots arch)).sum) := by
  induction pieces generalizing state with
  | nil =>
    cases h
    rfl
  | cons piece pieces ih =>
    rw [formatPieces_cons] at h
    cases hpiece : guest.formatPiece arch wide state piece with
    | error e =>
      rw [hpiece] at h
      cases h
    | ok next =>
      rw [hpiece] at h
      have hnext := formatPiece_slots hpiece
      have hsplit : (piece :: pieces).filterMap Sum.getRight? =
          piece.getRight?.toList ++ pieces.filterMap Sum.getRight? := by
        cases piece with
        | inl c => rfl
        | inr spec => rfl
      rw [ih h, hnext, List.drop_drop, hsplit, List.map_append, List.sum_append]

theorem formatPieces_ok (wide : Bool) {state : FormatState} (h : Convertible arch guest state.slots)
    {pieces : List (Char ⊕ FormatSpec)} (hpieces : ∀ spec ∈ pieces.filterMap Sum.getRight?, ¬spec.IsOverlong) :
    ∃ last, guest.formatPieces arch wide state pieces = .ok last := by
  induction pieces generalizing state with
  | nil => exact ⟨state, rfl⟩
  | cons piece pieces ih =>
    have hfirst : ∀ spec ∈ piece.getRight?, ¬spec.IsOverlong := fun spec hspec =>
      hpieces spec (List.mem_filterMap.mpr ⟨piece, List.mem_cons_self, hspec⟩)
    have hrest : ∀ spec ∈ pieces.filterMap Sum.getRight?, ¬spec.IsOverlong := by
      intro spec hspec
      obtain ⟨p, hp, hright⟩ := List.mem_filterMap.mp hspec
      exact hpieces spec (List.mem_filterMap.mpr ⟨p, List.mem_cons_of_mem _ hp, hright⟩)
    obtain ⟨next, hnext⟩ := formatPiece_ok wide h hfirst
    have hslots : Convertible arch guest next.slots := by
      rw [formatPiece_slots hnext]
      exact h.drop _
    obtain ⟨last, hlast⟩ := ih hslots hrest
    exact ⟨last, by rw [formatPieces_cons, hnext]; exact hlast⟩

/-- A format that does not fail has no field that is too long. -/
theorem formatPieces_short {state last : FormatState} {pieces : List (Char ⊕ FormatSpec)}
    (h : guest.formatPieces arch wide state pieces = .ok last) :
    ∀ spec ∈ pieces.filterMap Sum.getRight?, ¬spec.IsOverlong := by
  induction pieces generalizing state with
  | nil => exact fun spec hspec => absurd hspec List.not_mem_nil
  | cons piece pieces ih =>
    rw [formatPieces_cons] at h
    cases hpiece : guest.formatPiece arch wide state piece with
    | error e =>
      rw [hpiece] at h
      cases h
    | ok next =>
      rw [hpiece] at h
      intro spec hspec
      obtain ⟨p, hp, hright⟩ := List.mem_filterMap.mp hspec
      cases List.mem_cons.mp hp with
      | inl hfirst =>
        have hspec' : piece = .inr spec := by
          rw [← hfirst]
          exact Sum.getRight?_eq_some_iff.mp hright
        rw [hspec'] at hpiece
        exact fun hlong => formatPiece_short hlong.1 hpiece hlong.2
      | inr hrest => exact ih h spec (List.mem_filterMap.mpr ⟨p, hrest, hright⟩)

/-- The two walks over the conversions of a format agree. -/
structure ArgumentsAgree (guest : FormatGuest) (arch : Arch) (wide : Bool) (string : List Char) : Prop where
  /-- With enough slots the format takes the counted number. -/
  count : ∀ {argv last}, guest.vaArgCount arch string ≤ argv.length →
    guest.doStrFormat arch wide string argv = .ok last →
    argv.length = last.slots.length + guest.vaArgCount arch string
  /-- After every part of the format the slots that are left start where the counted ones end. -/
  position : ∀ {argv before after state}, guest.vaArgCount arch string ≤ argv.length →
    guest.pieces string = before ++ after → guest.formatPieces arch wide ⟨[], argv⟩ before = .ok state →
    state.slots = argv.drop (getVaArgCount arch (before.filterMap Sum.getRight?))
  /-- Only a failing read of the guest stops the format, and slots of 0 read nothing. -/
  returns : ∀ {argv}, Convertible arch guest argv → ∃ last, guest.doStrFormat arch wide string argv = .ok last

theorem sum_takenSlots_le (arch : Arch) (specs : List FormatSpec) :
    (specs.map (·.takenSlots arch)).sum ≤ (specs.map (·.countedSlots arch)).sum := by
  induction specs with
  | nil => exact Nat.le_refl _
  | cons spec specs ih =>
    have hspec := spec.takenSlots_le arch
    simp only [List.map_cons, List.sum_cons]
    omega

/-- The sums agree when no conversion is a starred `%%`. -/
theorem sum_takenSlots_eq_iff (arch : Arch) (specs : List FormatSpec) :
    (specs.map (·.takenSlots arch)).sum = (specs.map (·.countedSlots arch)).sum ↔
      ∀ spec ∈ specs, ¬spec.IsStarredPercent := by
  induction specs with
  | nil => simp
  | cons spec specs ih =>
    have hspec := spec.takenSlots_le arch
    have hrest := sum_takenSlots_le arch specs
    rw [List.forall_mem_cons, ← ih, ← spec.takenSlots_eq_iff arch]
    simp only [List.map_cons, List.sum_cons]
    omega

/-- The counts agree exactly when no `%%` of the format has a `*`, and no field is too long. -/
theorem argumentsAgree_iff (guest : FormatGuest) (arch : Arch) (wide : Bool) (string : List Char) :
    ArgumentsAgree guest arch wide string ↔
      ∀ spec ∈ (FormatSpec.pattern guest.decimal).found string, ¬spec.IsStarredPercent ∧ ¬spec.IsOverlong := by
  have hcount : guest.vaArgCount arch string =
      (((guest.pieces string).filterMap Sum.getRight?).map (·.countedSlots arch)).sum := getVaArgCount_eq arch _
  constructor
  · intro h
    have hzeros : ∀ slot ∈ List.replicate (guest.vaArgCount arch string) 0, slot = 0 :=
      fun slot hslot => List.eq_of_mem_replicate hslot
    have hsmall : ∀ slot ∈ List.replicate (guest.vaArgCount arch string) 0, slot < 2 ^ (arch.ptrSize * 8) := by
      intro slot hslot
      rw [hzeros slot hslot]
      exact Nat.pow_pos (by decide)
    have hstart : Convertible arch guest
        (FormatState.mk [] (List.replicate (guest.vaArgCount arch string) 0)).slots := ⟨hsmall, Or.inl hzeros⟩
    obtain ⟨last, hlast⟩ := h.returns hstart
    have hshort := @formatPieces_short arch guest wide _ _ (guest.pieces string) hlast
    have htaken := congrArg List.length (@formatPieces_slots arch guest wide _ _ (guest.pieces string) hlast)
    have hlen := h.count (by rw [List.length_replicate]) hlast
    have hle := sum_takenSlots_le arch ((guest.pieces string).filterMap Sum.getRight?)
    simp only [List.length_drop, List.length_replicate] at htaken hlen
    rw [hcount] at hlen
    have hpercent := (sum_takenSlots_eq_iff arch ((guest.pieces string).filterMap Sum.getRight?)).mp (by omega)
    exact fun spec hspec => ⟨hpercent spec hspec, hshort spec hspec⟩
  · intro h
    have hfront : ∀ before after, guest.pieces string = before ++ after →
        ((before.filterMap Sum.getRight?).map (·.takenSlots arch)).sum =
          ((before.filterMap Sum.getRight?).map (·.countedSlots arch)).sum := by
      intro before after hpieces
      apply (sum_takenSlots_eq_iff arch _).mpr
      intro spec hspec
      refine (h spec ?_).1
      show spec ∈ (guest.pieces string).filterMap Sum.getRight?
      rw [hpieces, List.filterMap_append]
      exact List.mem_append_left _ hspec
    refine ⟨fun {argv last} henough hlast => ?_, fun {argv before after state} _ hpieces hstate => ?_,
      fun {argv} hconvertible => ?_⟩
    · have hslots : last.slots = _ := @formatPieces_slots _ _ _ _ _ (guest.pieces string) hlast
      rw [hfront _ [] (List.append_nil _).symm, ← hcount] at hslots
      have hlen : last.slots.length = argv.length - guest.vaArgCount arch string := by
        rw [hslots, List.length_drop]
      omega
    · rw [formatPieces_slots hstate, hfront before after hpieces, ← getVaArgCount_eq]
    · have hstart : Convertible arch guest (FormatState.mk [] argv).slots := hconvertible
      exact formatPieces_ok wide hstart fun spec hspec => (h spec hspec).2

/-- A guest without memory, with the decimal digits of ASCII. -/
def blank : FormatGuest where
  decimal c := if c.isDigit then some (c.toNat - '0'.toNat) else none
  chr := Char.ofNat
  decodeAnsi data := data.map fun b => Char.ofNat b.toNat
  decodeUtf16 _ := []
  floatText _ _ _ := []
  floatHex _ := []
  memRead _ _ := none
  readPtr _ := none
  readString _ := none
  readWideString _ := none

/-- `get_va_arg_count` counts a slot for the width of `%*%`, and `do_str_format` takes none: the `%d` after it
gets the first slot. -/
theorem argumentsAgree_not_always :
    blank.vaArgCount .x86 ['%', '*', '%', '%', 'd'] = 2 ∧
      blank.doStrFormat .x86 false ['%', '*', '%', '%', 'd'] [5, 7] = .ok ⟨['%', '5'], [7]⟩ ∧
      ¬ArgumentsAgree blank .x86 false ['%', '*', '%', '%', 'd'] := by
  have hpieces : blank.pieces ['%', '*', '%', '%', 'd'] =
      [.inr ⟨[], some .star, none, none, '%'⟩, .inr ⟨[], none, none, none, 'd'⟩] := by
    have hpercent : ((FormatSpec.pattern blank.decimal).matcher ['%', '*', '%', '%', 'd']).head? =
        some (⟨[], some .star, none, none, '%'⟩, ['%', 'd']) := by rfl
    have hd : ((FormatSpec.pattern blank.decimal).matcher ['%', 'd']).head? =
        some (⟨[], none, none, none, 'd'⟩, []) := by rfl
    unfold pieces
    rw [Pattern.pieces_cons_found hpercent, Pattern.pieces_cons_found hd, Pattern.pieces_nil]
  have hcount : blank.vaArgCount .x86 ['%', '*', '%', '%', 'd'] = 2 := by
    show getVaArgCount .x86 ((blank.pieces ['%', '*', '%', '%', 'd']).filterMap Sum.getRight?) = 2
    rw [hpieces]
    rfl
  have hrun : blank.doStrFormat .x86 false ['%', '*', '%', '%', 'd'] [5, 7] = .ok ⟨['%', '5'], [7]⟩ := by
    show blank.formatPieces .x86 false ⟨[], [5, 7]⟩ (blank.pieces ['%', '*', '%', '%', 'd']) = _
    rw [hpieces]
    rfl
  refine ⟨hcount, hrun, fun h => ?_⟩
  have hlen := @h.count [5, 7] _ (by rw [hcount]; rfl) hrun
  rw [hcount] at hlen
  exact absurd hlen (by decide)

end FormatGuest

end Speakeasy
