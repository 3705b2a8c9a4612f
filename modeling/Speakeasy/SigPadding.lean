import Speakeasy.ArgFormatter

namespace Speakeasy

inductive RenderError
  | overflow
deriving DecidableEq

/-- `value.to_bytes(size, "little")` -/
def checkedBytes (size value : Nat) : Except RenderError (List UInt8) :=
  if value < 256 ^ size then .ok (toBytes size value) else .error .overflow

namespace ArgFormatter

variable {arch : Arch} (f : ArgFormatter arch)

/-- `_render_struct_bytes` -/
def renderStructBytes (name : String) (data : List UInt8) : RenderedArg :=
  match f.structs.lookup name with
  | none => ⟨truncate ("0x" ++ hexBytes data), .bytes⟩
  | some struct =>
    if struct.fields.isEmpty then ⟨truncate ("0x" ++ hexBytes data), .bytes⟩
    else
      match f.renderSpecialStruct name struct data with
      | some special => ⟨truncate special.text, special.kind⟩
      | none => ⟨truncate (f.formatStructBytes name data 0), .struct⟩

/-- `_render_struct_ptr` -/
def renderStructPtr (name : Option String) (address : Nat) : RenderedArg :=
  match name.bind fun key => (f.structs.lookup key).map fun struct => (key, struct) with
  | none => ⟨hexNumber address, .ptr⟩
  | some (key, struct) =>
    if struct.fields.isEmpty ∨ struct.size arch = 0 then ⟨hexNumber address, .ptr⟩
    else
      match f.readMem address (struct.size arch) with
      | none => ⟨hexNumber address, .ptr⟩
      | some data => f.renderStructBytes key data

/-- Win64 passes the first four floats in XMM0-3. -/
def renderFloat (code : TypeCode) (value index : Nat) : RenderedArg :=
  match f.readXmm with
  | none => ⟨f.formatFloat code value, .float⟩
  | some readXmm =>
    if arch.ptrSize = 8 ∧ index < 4 then
      match readXmm index with
      | none => ⟨hexNumber value, .int⟩
      | some value => ⟨f.formatFloat code value, .float⟩
    else ⟨f.formatFloat code value, .float⟩

def renderString (value width : Nat) : RenderedArg :=
  match f.readString width maxStringChars value (0x100 * width) [] with
  | none => ⟨hexNumber value, .ptr⟩
  | some text => ⟨truncate text, .str⟩

def renderInt (enum : Option String) (value : Nat) : RenderedArg :=
  match enum.bind f.lookupEnum with
  | none => ⟨hexNumber value, .int⟩
  | some enum =>
    if enum.decode value = hexNumber value then ⟨hexNumber value, .int⟩
    else ⟨truncate (enum.decode value), if enum.flags then .flags else .enum⟩

def renderBool (value : Nat) : RenderedArg :=
  if value = 0 then ⟨"FALSE", .bool⟩ else if value = 1 then ⟨"TRUE", .bool⟩ else ⟨hexNumber value, .int⟩

/-- `render_param` -/
def renderParam (param : ParamSig) (value index : Nat) : Except RenderError RenderedArg :=
  let address : RenderedArg := ⟨hexNumber value, .ptr⟩
  let opaquePointer := !param.isIn || value = 0
  match param.code with
  | .f32 => .ok (f.renderFloat param.code value index)
  | .f64 => .ok (f.renderFloat param.code value index)
  | .g =>
    if arch.ptrSize = 4 then (checkedBytes 16 value).map fun data => ⟨formatGuid data, .guid⟩
    else if opaquePointer then .ok address
    else
      match f.readMem value 16 with
      | none => .ok address
      | some data => .ok ⟨formatGuid data, .guid⟩
  | .st name _ _ =>
    if param.byReference arch then .ok (if opaquePointer then address else f.renderStructPtr (some name) value)
    else (checkedBytes (param.size arch) value).map fun data => f.renderStructBytes name data
  | .ps name => .ok (if opaquePointer then address else f.renderStructPtr name value)
  | .s => .ok (if opaquePointer then address else f.renderString value 1)
  | .S => .ok (if opaquePointer then address else f.renderString value 2)
  | .b => .ok (renderBool value)
  | .B => .ok (renderBool value)
  | .h => .ok ⟨hexNumber value, .handle⟩
  | .p => .ok address
  | .a => .ok address
  | .int _ enum => .ok (f.renderInt enum value)
  | .v => .ok ⟨hexNumber value, .int⟩
  | .arr .. => .ok ⟨hexNumber value, .int⟩

end ArgFormatter

variable {arch : Arch}

/-- The bytes of its slots that a parameter takes. A parameter that is passed by reference takes a pointer. -/
def ParamSig.occupied (arch : Arch) (param : ParamSig) : Nat :=
  if param.byReference arch then arch.ptrSize else param.size arch

/-- A parameter leaves bytes of its slots free, and no mask takes them away: it is an aggregate, has no size or
is larger than a slot. -/
def ParamSig.HasPadding (arch : Arch) (param : ParamSig) : Prop :=
  param.byReference arch = false ∧ param.size arch < param.slots arch * arch.ptrSize ∧
    (param.code.isAggregate = true ∨ param.size arch = 0 ∨ arch.ptrSize ≤ param.size arch)

/-- Slots that agree on the bytes that their parameters take. -/
def SlotsAgree (arch : Arch) : List ParamSig → List Nat → List Nat → Prop
  | [], _, _ => True
  | param :: params, slots, slots' =>
    (slotBytes arch (slots.take (param.slots arch))).take (param.occupied arch) =
        (slotBytes arch (slots'.take (param.slots arch))).take (param.occupied arch) ∧
      SlotsAgree arch params (slots.drop (param.slots arch)) (slots'.drop (param.slots arch))

/-- What decoding and rendering give does not depend on the padding, and rendering does not raise. -/
def PaddingIndependent (f : ArgFormatter arch) (params : List ParamSig) : Prop :=
  ∀ slots slots', slots.length = slotCount arch params → slots'.length = slotCount arch params →
    SlotsAgree arch params slots slots' →
    valuesFromSlots arch params slots = valuesFromSlots arch params slots' ∧
    ∀ i param value value', params[i]? = some param → (valuesFromSlots arch params slots)[i]? = some value →
      (valuesFromSlots arch params slots')[i]? = some value' →
      f.renderParam param value i = f.renderParam param value' i ∧
      ∃ arg, f.renderParam param value i = .ok arg

namespace ParamSig

theorem slots_pos (arch : Arch) (param : ParamSig) : 0 < param.slots arch := by
  unfold slots
  split
  next => exact Nat.one_pos
  next => omega

theorem valueMask_eq_none_iff {param : ParamSig} :
    param.valueMask arch = none ↔
      param.code.isAggregate = true ∨ param.size arch = 0 ∨ arch.ptrSize ≤ param.size arch := by
  unfold valueMask
  split
  next hagg => exact iff_of_true rfl (Or.inl hagg)
  next hagg =>
    split
    next hsize =>
      have hno : ¬(param.code.isAggregate = true ∨ param.size arch = 0 ∨ arch.ptrSize ≤ param.size arch) := by
        rintro (h | h | h)
        · exact hagg h
        · omega
        · omega
      exact iff_of_false (by simp) hno
    next hsize => exact iff_of_true rfl (Or.inr (by omega))

theorem valueMask_eq_some {param : ParamSig} {mask : Nat} (h : param.valueMask arch = some mask) :
    mask = 2 ^ (param.size arch * 8) - 1 ∧ param.byReference arch = false := by
  unfold valueMask at h
  split at h
  next hagg => simp at h
  next hagg =>
    split at h
    next hsize =>
      have hmask := (Option.some.inj h).symm
      refine ⟨hmask, ?_⟩
      unfold byReference
      simp [hagg]
    next hsize => simp at h

theorem slots_byReference {param : ParamSig} (h : param.byReference arch = true) : param.slots arch = 1 := by
  unfold byReference at h
  unfold slots
  rw [Bool.and_eq_true, Bool.and_eq_true] at h
  rw [if_pos ⟨of_decide_eq_true h.1.1, h.1.2⟩]

/-- Without padding the value of a parameter is the bytes that it takes. -/
theorem slotValue_eq {param : ParamSig} (h : ¬param.HasPadding arch) {chunk : List Nat}
    (hlen : chunk.length = param.slots arch) :
    slotValue arch param chunk = fromBytes ((slotBytes arch chunk).take (param.occupied arch)) := by
  have hbytes : (slotBytes arch chunk).length = param.slots arch * arch.ptrSize := by
    rw [slotBytes_length, hlen]
  unfold slotValue occupied
  split
  next mask hmask =>
    obtain ⟨rfl, hreference⟩ := valueMask_eq_some hmask
    rw [hreference, if_neg Bool.false_ne_true, and_bits, joinSlots_eq, fromBytes_take]
  next hmask =>
    rw [joinSlots_eq]
    cases hreference : param.byReference arch with
    | true =>
      have hslots := slots_byReference hreference
      rw [hslots, Nat.one_mul] at hbytes
      rw [if_pos rfl, List.take_of_length_le (by omega)]
    | false =>
      have hsize : ¬param.size arch < param.slots arch * arch.ptrSize :=
        fun hlt => h ⟨hreference, hlt, valueMask_eq_none_iff.mp hmask⟩
      rw [if_neg Bool.false_ne_true, List.take_of_length_le (by omega)]

theorem slotValue_lt {param : ParamSig} (h : ¬param.HasPadding arch) {chunk : List Nat}
    (hlen : chunk.length = param.slots arch) : slotValue arch param chunk < 256 ^ param.occupied arch := by
  rw [slotValue_eq h hlen, fromBytes_take]
  exact Nat.mod_lt _ (Nat.pow_pos (by decide))

end ParamSig

theorem checkedBytes_ok {size value : Nat} (h : value < 256 ^ size) :
    checkedBytes size value = .ok (toBytes size value) := by
  unfold checkedBytes
  rw [if_pos h]

/-- A value that fits in the bytes of its parameter is rendered. -/
theorem ArgFormatter.renderParam_ok (f : ArgFormatter arch) {param : ParamSig} {value : Nat}
    (h : value < 256 ^ param.occupied arch) (index : Nat) : ∃ arg, f.renderParam param value index = .ok arg := by
  cases harg : f.renderParam param value index with
  | ok arg => exact ⟨arg, rfl⟩
  | error e =>
    exfalso
    unfold renderParam at harg
    cases hcode : param.code with
    | g =>
      simp only [hcode] at harg
      split at harg
      next hptr =>
        have hoccupied : param.occupied arch = 16 := by
          unfold ParamSig.occupied ParamSig.byReference ParamSig.size
          simp [hptr, hcode, TypeCode.size]
        rw [hoccupied] at h
        rw [checkedBytes_ok h] at harg
        simp [Except.map] at harg
      next hptr => split at harg <;> (try split at harg) <;> simp at harg
    | st name size32 size64 =>
      simp only [hcode] at harg
      split at harg
      next hreference => simp at harg
      next hreference =>
        have hoccupied : param.occupied arch = param.size arch := by
          unfold ParamSig.occupied
          rw [if_neg hreference]
        rw [hoccupied] at h
        rw [checkedBytes_ok h] at harg
        simp [Except.map] at harg
    | _ => simp [hcode] at harg

theorem slotsAgree_refl (params : List ParamSig) (slots : List Nat) : SlotsAgree arch params slots slots := by
  induction params generalizing slots with
  | nil => trivial
  | cons param params ih => exact ⟨rfl, ih _⟩

theorem slotCount_cons (param : ParamSig) (params : List ParamSig) :
    slotCount arch (param :: params) = param.slots arch + slotCount arch params := by
  unfold slotCount
  rw [List.map_cons, List.sum_cons]

/-- Without padding the values depend on the bytes that the parameters take, and each fits in its bytes. -/
theorem valuesFromSlots_agree {params : List ParamSig} (h : ∀ param ∈ params, ¬param.HasPadding arch)
    {slots slots' : List Nat} (hlen : slots.length = slotCount arch params)
    (hlen' : slots'.length = slotCount arch params) (hagree : SlotsAgree arch params slots slots') :
    valuesFromSlots arch params slots = valuesFromSlots arch params slots' := by
  induction params generalizing slots slots' with
  | nil => rfl
  | cons param params ih =>
    have hparam : ¬param.HasPadding arch := h param List.mem_cons_self
    rw [slotCount_cons] at hlen hlen'
    have htake : (slots.take (param.slots arch)).length = param.slots arch := by
      rw [List.length_take]; omega
    have htake' : (slots'.take (param.slots arch)).length = param.slots arch := by
      rw [List.length_take]; omega
    have hdrop : (slots.drop (param.slots arch)).length = slotCount arch params := by
      rw [List.length_drop]; omega
    have hdrop' : (slots'.drop (param.slots arch)).length = slotCount arch params := by
      rw [List.length_drop]; omega
    have hrest := ih (fun p hp => h p (List.mem_cons_of_mem _ hp)) hdrop hdrop' hagree.2
    unfold valuesFromSlots
    rw [ParamSig.slotValue_eq hparam htake, ParamSig.slotValue_eq hparam htake', hagree.1, hrest]

theorem valuesFromSlots_fit {params : List ParamSig} (h : ∀ param ∈ params, ¬param.HasPadding arch)
    {slots : List Nat} (hlen : slots.length = slotCount arch params) {i : Nat} {param : ParamSig} {value : Nat}
    (hparam : params[i]? = some param) (hvalue : (valuesFromSlots arch params slots)[i]? = some value) :
    value < 256 ^ param.occupied arch := by
  induction params generalizing slots i with
  | nil => simp at hparam
  | cons first params ih =>
    rw [slotCount_cons] at hlen
    unfold valuesFromSlots at hvalue
    cases i with
    | zero =>
      have htake : (slots.take (first.slots arch)).length = first.slots arch := by
        rw [List.length_take]; omega
      have hfirst : first = param := by simpa using hparam
      have hslot : slotValue arch first (slots.take (first.slots arch)) = value := by simpa using hvalue
      rw [← hslot, ← hfirst]
      exact ParamSig.slotValue_lt (h first List.mem_cons_self) htake
    | succ i =>
      have hdrop : (slots.drop (first.slots arch)).length = slotCount arch params := by
        rw [List.length_drop]; omega
      rw [List.getElem?_cons_succ] at hparam hvalue
      exact ih (fun p hp => h p (List.mem_cons_of_mem _ hp)) hdrop hparam hvalue

theorem slotBytes_zeros (arch : Arch) (n : Nat) :
    slotBytes arch (List.replicate n 0) = List.replicate (n * arch.ptrSize) 0 := by
  have hzero : toBytes arch.ptrSize 0 = List.replicate arch.ptrSize 0 := by
    cases arch with
    | x86 => decide
    | amd64 => decide
  unfold slotBytes
  rw [List.flatMap_replicate, hzero, List.flatten_replicate_replicate]

/-- Slots of zeros but for the last byte. -/
def lastByteSet (arch : Arch) (n : Nat) : List Nat := List.replicate (n - 1) 0 ++ [256 ^ (arch.ptrSize - 1)]

theorem lastByteSet_length (arch : Arch) {n : Nat} (h : 0 < n) : (lastByteSet arch n).length = n := by
  unfold lastByteSet
  rw [List.length_append, List.length_replicate, List.length_singleton]
  omega

theorem slotBytes_lastByteSet (arch : Arch) {n : Nat} (h : 0 < n) :
    slotBytes arch (lastByteSet arch n) = List.replicate (n * arch.ptrSize - 1) 0 ++ [1] := by
  have hlast : toBytes arch.ptrSize (256 ^ (arch.ptrSize - 1)) = List.replicate (arch.ptrSize - 1) 0 ++ [1] := by
    cases arch with
    | x86 => decide
    | amd64 => decide
  have hcount : (n - 1) * arch.ptrSize + (arch.ptrSize - 1) = n * arch.ptrSize - 1 := by
    have hptr := arch.ptrSize_pos
    obtain ⟨k, rfl⟩ := Nat.exists_eq_succ_of_ne_zero (Nat.pos_iff_ne_zero.mp h)
    rw [Nat.succ_mul, Nat.succ_sub_one]
    omega
  have hzeros := slotBytes_zeros arch (n - 1)
  unfold slotBytes lastByteSet at *
  rw [List.flatMap_append, hzeros, List.flatMap_singleton, hlast, ← List.append_assoc,
    List.replicate_append_replicate, hcount]

/-- A padded parameter has slots that agree with zeros where it takes them, and another value. -/
theorem ParamSig.HasPadding.slots {param : ParamSig} (h : param.HasPadding arch) :
    ∃ chunk chunk', chunk.length = param.slots arch ∧ chunk'.length = param.slots arch ∧
      (slotBytes arch chunk).take (param.occupied arch) = (slotBytes arch chunk').take (param.occupied arch) ∧
      slotValue arch param chunk ≠ slotValue arch param chunk' := by
  obtain ⟨hreference, hsize, hkind⟩ := h
  have hslots := param.slots_pos arch
  have hmask := ParamSig.valueMask_eq_none_iff.mpr hkind
  have hoccupied : param.occupied arch = param.size arch := by
    unfold ParamSig.occupied
    rw [hreference, if_neg Bool.false_ne_true]
  refine ⟨List.replicate (param.slots arch) 0, lastByteSet arch (param.slots arch), List.length_replicate,
    lastByteSet_length arch hslots, ?_, ?_⟩
  · rw [hoccupied, slotBytes_zeros, slotBytes_lastByteSet arch hslots, List.take_append_of_le_length
      (by rw [List.length_replicate]; omega), List.take_replicate, List.take_replicate]
    congr 1
    omega
  · unfold slotValue
    rw [hmask]
    simp only
    rw [joinSlots_eq, joinSlots_eq, slotBytes_zeros, slotBytes_lastByteSet arch hslots, fromBytes_append]
    have hzeros : ∀ n, fromBytes (List.replicate n 0) = 0 := by
      intro n
      induction n with
      | zero => rfl
      | succ n ih =>
        rw [List.replicate_succ, fromBytes, ih]
        rfl
    have hpow : 0 < 256 ^ (List.replicate (param.slots arch * arch.ptrSize - 1) (0 : UInt8)).length :=
      Nat.pow_pos (by decide)
    have hone : fromBytes [1] = 1 := by decide
    rw [hzeros, hzeros, hone]
    omega

/-- The padding of one parameter reaches the values of its signature. -/
theorem valuesFromSlots_padding {params : List ParamSig} {param : ParamSig} (hmem : param ∈ params)
    (h : param.HasPadding arch) :
    ∃ slots slots', slots.length = slotCount arch params ∧ slots'.length = slotCount arch params ∧
      SlotsAgree arch params slots slots' ∧
      valuesFromSlots arch params slots ≠ valuesFromSlots arch params slots' := by
  induction params with
  | nil => simp at hmem
  | cons first params ih =>
    cases hmem with
    | head =>
      obtain ⟨chunk, chunk', hlen, hlen', hagree, hne⟩ := h.slots
      let rest := List.replicate (slotCount arch params) 0
      have hrest : rest.length = slotCount arch params := List.length_replicate
      refine ⟨chunk ++ rest, chunk' ++ rest, ?_, ?_, ⟨?_, ?_⟩, ?_⟩
      · rw [List.length_append, slotCount_cons, hlen, hrest]
      · rw [List.length_append, slotCount_cons, hlen', hrest]
      · rw [List.take_left' hlen, List.take_left' hlen', hagree]
      · rw [List.drop_left' hlen, List.drop_left' hlen']
        exact slotsAgree_refl params rest
      · unfold valuesFromSlots
        rw [List.take_left' hlen, List.take_left' hlen']
        intro heq
        exact hne (List.cons.inj heq).1
    | tail _ hmem =>
      obtain ⟨slots, slots', hlen, hlen', hagree, hne⟩ := ih hmem
      let chunk := List.replicate (first.slots arch) 0
      have hchunk : chunk.length = first.slots arch := List.length_replicate
      refine ⟨chunk ++ slots, chunk ++ slots', ?_, ?_, ⟨?_, ?_⟩, ?_⟩
      · rw [List.length_append, slotCount_cons, hlen, hchunk]
      · rw [List.length_append, slotCount_cons, hlen', hchunk]
      · rw [List.take_left' hchunk, List.take_left' hchunk]
      · rw [List.drop_left' hchunk, List.drop_left' hchunk]
        exact hagree
      · unfold valuesFromSlots
        rw [List.drop_left' hchunk, List.drop_left' hchunk]
        intro heq
        exact hne (List.cons.inj heq).2

/-- Decoding and rendering are independent of the padding exactly when no parameter has padding that stays in
its value. -/
theorem paddingIndependent_iff (f : ArgFormatter arch) (params : List ParamSig) :
    PaddingIndependent f params ↔ ∀ param ∈ params, ¬param.HasPadding arch := by
  constructor
  · intro h param hmem hpadding
    obtain ⟨slots, slots', hlen, hlen', hagree, hne⟩ := valuesFromSlots_padding hmem hpadding
    exact hne (h slots slots' hlen hlen' hagree).1
  · intro h slots slots' hlen hlen' hagree
    have hvalues := valuesFromSlots_agree h hlen hlen' hagree
    refine ⟨hvalues, fun i param value value' hparam hvalue hvalue' => ?_⟩
    have hsame : value = value' := by
      rw [← hvalues, hvalue] at hvalue'
      exact Option.some.inj hvalue'
    exact ⟨by rw [hsame], f.renderParam_ok (valuesFromSlots_fit h hlen hparam hvalue) i⟩

/-- No signatures, no memory and no texts. -/
def blankFormatter (arch : Arch) : ArgFormatter arch where
  structs := ⟨fun _ => none, fun _ => 0, fun h => by simp at h⟩
  lookupEnum _ := none
  memory _ := none
  readXmm := none
  floatText _ := none
  decodeAnsi _ := ""
  decodeUtf16 _ := ""

/-- A struct of 6 bytes takes two slots on x86. With a bit in the last two bytes of the second slot its value is
another, and `to_bytes` raises. -/
theorem paddingIndependent_not_always :
    let size6 : ParamSig := ⟨"s", .st "SIZE6" 6 6, ""⟩
    slotCount .x86 [size6] = 2 ∧ SlotsAgree .x86 [size6] [0, 0] [0, 0x10000] ∧
      valuesFromSlots .x86 [size6] [0, 0x10000] = [0x1000000000000] ∧
      (blankFormatter .x86).renderParam size6 0x1000000000000 0 = .error .overflow ∧
      ¬PaddingIndependent (blankFormatter .x86) [size6] := by
  intro size6
  have hcount : slotCount .x86 [size6] = 2 := by decide
  have hagree : SlotsAgree .x86 [size6] [0, 0] [0, 0x10000] := ⟨by decide, trivial⟩
  have hvalue : valuesFromSlots .x86 [size6] [0, 0x10000] = [0x1000000000000] := by decide
  refine ⟨hcount, hagree, hvalue, by rfl, ?_⟩
  intro h
  have hsame := (h [0, 0] [0, 0x10000] hcount.symm hcount.symm hagree).1
  have hdifferent : valuesFromSlots .x86 [size6] [0, 0] ≠ valuesFromSlots .x86 [size6] [0, 0x10000] := by decide
  exact hdifferent hsame

end Speakeasy
