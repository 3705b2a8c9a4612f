import Speakeasy.UnwindInfo

namespace Speakeasy

/-- The operations of the x64 unwind format, with operands in their ranges. The small operands of saves
and of the large allocation count units of the format, and the far ones count bytes. -/
inductive UnwindOp
  | pushNonvol (reg : Fin 16)
  | allocLarge (units : UInt16)
  | allocHuge (size : UInt32)
  | allocSmall (units : Fin 16)
  | setFpreg
  | saveNonvol (reg : Fin 16) (units : UInt16)
  | saveNonvolFar (reg : Fin 16) (offset : UInt32)
  | saveXmm128 (reg : Fin 16) (units : UInt16)
  | saveXmm128Far (reg : Fin 16) (offset : UInt32)
  | pushMachframe (errorCode : Bool)
deriving DecidableEq

namespace UnwindOp

def opcode : UnwindOp → Nat
  | .pushNonvol _ => 0
  | .allocLarge _ => 1
  | .allocHuge _ => 1
  | .allocSmall _ => 2
  | .setFpreg => 3
  | .saveNonvol _ _ => 4
  | .saveNonvolFar _ _ => 5
  | .saveXmm128 _ _ => 8
  | .saveXmm128Far _ _ => 9
  | .pushMachframe _ => 10

def info : UnwindOp → Fin 16
  | .pushNonvol reg => reg
  | .allocLarge _ => 0
  | .allocHuge _ => 1
  | .allocSmall units => units
  | .setFpreg => 0
  | .saveNonvol reg _ => reg
  | .saveNonvolFar reg _ => reg
  | .saveXmm128 reg _ => reg
  | .saveXmm128Far reg _ => reg
  | .pushMachframe errorCode => if errorCode then 1 else 0

/-- The operand, and the number of slots that it takes. -/
def operand : UnwindOp → Nat × Nat
  | .allocLarge units => (units.toNat, 1)
  | .allocHuge size => (size.toNat, 2)
  | .saveNonvol _ units => (units.toNat, 1)
  | .saveNonvolFar _ offset => (offset.toNat, 2)
  | .saveXmm128 _ units => (units.toNat, 1)
  | .saveXmm128Far _ offset => (offset.toNat, 2)
  | _ => (0, 0)

def slotCount (op : UnwindOp) : Nat := 1 + op.operand.2

/-- The slots of an operation at an offset of the prolog. -/
def encode (offset : UInt8) (op : UnwindOp) : List UInt8 :=
  offset :: UInt8.ofNat (op.opcode + 16 * op.info.val) :: toBytes (2 * op.operand.2) op.operand.1

/-- What the decoder gives for an operation. -/
def code (offset : UInt8) (op : UnwindOp) : UnwindCode :=
  ⟨offset.toNat, op.opcode, op.info, op.operand.1⟩

theorem slots_eq (op : UnwindOp) : slots op.opcode op.info = op.slotCount := by
  cases op <;> rfl

theorem opcode_lt (op : UnwindOp) : op.opcode < 16 := by
  cases op <;> simp [opcode]

theorem operand_lt (op : UnwindOp) : op.operand.1 < 256 ^ (2 * op.operand.2) := by
  cases op with
  | allocLarge units => exact units.toNat_lt
  | allocHuge size => exact size.toNat_lt
  | saveNonvol reg units => exact units.toNat_lt
  | saveNonvolFar reg offset => exact offset.toNat_lt
  | saveXmm128 reg units => exact units.toNat_lt
  | saveXmm128Far reg offset => exact offset.toNat_lt
  | pushNonvol reg => exact Nat.one_pos
  | allocSmall units => exact Nat.one_pos
  | setFpreg => exact Nat.one_pos
  | pushMachframe errorCode => exact Nat.one_pos

@[simp] theorem encode_length (offset : UInt8) (op : UnwindOp) :
    (op.encode offset).length = 2 * op.slotCount := by
  simp only [encode, List.length_cons, toBytes_length, slotCount]
  omega

theorem nibbles (op : UnwindOp) :
    lowNibble (UInt8.ofNat (op.opcode + 16 * op.info.val)) = ⟨op.opcode, op.opcode_lt⟩ ∧
      highNibble (UInt8.ofNat (op.opcode + 16 * op.info.val)) = op.info := by
  have hop := op.opcode_lt
  have hinfo := op.info.isLt
  have hval : (UInt8.ofNat (op.opcode + 16 * op.info.val)).toNat = op.opcode + 16 * op.info.val := by
    rw [UInt8.toNat_ofNat']
    omega
  constructor
  · apply Fin.ext
    show (UInt8.ofNat _).toNat % 16 = op.opcode
    omega
  · apply Fin.ext
    show (UInt8.ofNat _).toNat / 16 = op.info.val
    omega

/-- The code of an operation determines the operation. -/
theorem code_injective {offset offset' : UInt8} {op op' : UnwindOp}
    (h : op.code offset = op'.code offset') : offset = offset' ∧ op = op' := by
  have ho : offset.toNat = offset'.toNat := congrArg UnwindCode.prologOffset h
  have hop : op.opcode = op'.opcode := congrArg UnwindCode.op h
  have hinfo : op.info = op'.info := congrArg UnwindCode.info h
  have hoperand : op.operand.1 = op'.operand.1 := congrArg UnwindCode.operand h
  refine ⟨UInt8.toNat_inj.mp ho, ?_⟩
  cases op <;> cases op' <;> simp_all [opcode, info, operand, UInt16.toNat_inj, UInt32.toNat_inj]
  next e e' => cases e <;> cases e' <;> simp_all

end UnwindOp

/-- The slots of a list of operations, each at an offset of the prolog. -/
def encodeOps (ops : List (UInt8 × UnwindOp)) : List UInt8 := ops.flatMap fun x => x.2.encode x.1

def slotTotal (ops : List (UInt8 × UnwindOp)) : Nat := (ops.map fun x => x.2.slotCount).sum

@[simp] theorem encodeOps_length (ops : List (UInt8 × UnwindOp)) :
    (encodeOps ops).length = 2 * slotTotal ops := by
  induction ops with
  | nil => rfl
  | cons x ops ih =>
    have hcons : encodeOps (x :: ops) = x.2.encode x.1 ++ encodeOps ops := rfl
    have htotal : slotTotal (x :: ops) = x.2.slotCount + slotTotal ops := by simp [slotTotal]
    rw [hcons, htotal, List.length_append, ih, UnwindOp.encode_length]
    omega

/-- Unwind data, whose slots fit in the count byte. -/
structure EncodedUnwind where
  version : Fin 8
  flags : Fin 32
  prologSize : UInt8
  frameReg : Fin 16
  frameOffset : Fin 16
  ops : List (UInt8 × UnwindOp)
  fits : slotTotal ops ≤ 255

namespace EncodedUnwind

def header (e : EncodedUnwind) : List UInt8 :=
  [UInt8.ofNat (e.version.val + 8 * e.flags.val), e.prologSize, UInt8.ofNat (slotTotal e.ops),
    UInt8.ofNat (e.frameReg.val + 16 * e.frameOffset.val)]

/-- The header and the slots, which are padded to an even number. -/
def encode (e : EncodedUnwind) : List UInt8 :=
  e.header ++ encodeOps e.ops ++ if slotTotal e.ops % 2 = 0 then [] else [0, 0]

/-- The decoded data at an address. -/
def unwindInfo (e : EncodedUnwind) (address : Int) : UnwindInfo where
  flags := e.flags.val
  prologSize := e.prologSize.toNat
  frameReg := e.frameReg
  frameOffset := e.frameOffset.val
  codes := e.ops.map fun x => x.2.code x.1
  trailer := address + e.encode.length

theorem encode_length (e : EncodedUnwind) :
    e.encode.length = 4 + 2 * ((slotTotal e.ops + 1) / 2 * 2) := by
  unfold encode
  rw [List.length_append, List.length_append, encodeOps_length]
  split
  · simp only [header, List.length_cons, List.length_nil]
    omega
  · simp only [header, List.length_cons, List.length_nil]
    omega

end EncodedUnwind

/-- The memory at an address holds some bytes. -/
def GuestReader.Holds (reader : GuestReader) (address : Int) (bytes : List UInt8) : Prop :=
  ∀ pos size, pos + size ≤ bytes.length →
    reader.read (address + pos) size = some ((bytes.drop pos).take size)

/-- The decoder at the first of some operations gives these operations. -/
theorem decodeCodes_encodeOps {ops : List (UInt8 × UnwindOp)} {raw pre : List UInt8}
    {fuel i count : Nat} (hraw : raw = pre ++ encodeOps ops) (hpre : pre.length = 2 * i)
    (hcount : count = i + slotTotal ops) (hfuel : slotTotal ops < fuel) :
    decodeCodes raw count fuel i = some (ops.map fun x => x.2.code x.1) := by
  induction ops generalizing pre fuel i with
  | nil =>
    obtain ⟨fuel, rfl⟩ := Nat.exists_eq_succ_of_ne_zero (Nat.ne_of_gt hfuel)
    have hend : ¬i < count := by
      rw [hcount]
      simp [slotTotal]
    unfold decodeCodes
    rw [if_neg hend]
    rfl
  | cons x ops ih =>
    obtain ⟨offset, op⟩ := x
    obtain ⟨fuel, rfl⟩ := Nat.exists_eq_succ_of_ne_zero (Nat.ne_of_gt (Nat.zero_lt_of_lt hfuel))
    have htotal : slotTotal ((offset, op) :: ops) = op.slotCount + slotTotal ops := by
      simp [slotTotal]
    have hpos : 1 ≤ op.slotCount := Nat.le_add_right ..
    have hcons : encodeOps ((offset, op) :: ops) = op.encode offset ++ encodeOps ops := rfl
    rw [hcons] at hraw
    have hlt : i < count := by omega
    have hoffset : raw[2 * i]? = some offset := by
      rw [hraw, List.getElem?_append_right (by omega), hpre, Nat.sub_self]
      rfl
    have hopInfo : raw[2 * i + 1]? = some (UInt8.ofNat (op.opcode + 16 * op.info.val)) := by
      rw [hraw, List.getElem?_append_right (by omega), hpre, Nat.add_sub_cancel_left]
      rfl
    have hslice : (raw.take (2 * (i + op.slotCount))).drop (2 * i + 2) =
        toBytes (2 * op.operand.2) op.operand.1 := by
      have htake : raw.take (2 * (i + op.slotCount)) = pre ++ op.encode offset := by
        rw [hraw, ← List.append_assoc, List.take_left']
        rw [List.length_append, hpre, UnwindOp.encode_length]
        omega
      have hsplit : pre ++ op.encode offset = (pre ++ [offset,
          UInt8.ofNat (op.opcode + 16 * op.info.val)]) ++ toBytes (2 * op.operand.2) op.operand.1 := by
        simp [UnwindOp.encode]
      rw [htake, hsplit, List.drop_left']
      rw [List.length_append, hpre]
      rfl
    have hraw' : raw = (pre ++ op.encode offset) ++ encodeOps ops := by
      rw [hraw, List.append_assoc]
    have hpre' : (pre ++ op.encode offset).length = 2 * (i + op.slotCount) := by
      rw [List.length_append, hpre, UnwindOp.encode_length]
      omega
    have hrest : decodeCodes raw count fuel (i + op.slotCount) =
        some (ops.map fun x => x.2.code x.1) := ih hraw' hpre' (by omega) (by omega)
    unfold decodeCodes
    rw [if_pos hlt, hopInfo]
    simp only [Option.bind_eq_bind, Option.bind_some, op.nibbles.1, op.nibbles.2, op.slots_eq, hoffset,
      hslice, hrest, fromBytes_toBytes_of_lt op.operand_lt]
    rfl

/-- The decoder ends in the array for every content of the array. -/
theorem decodeCodes_isSome {raw : List UInt8} {count fuel i : Nat} (hraw : raw.length = 2 * count)
    (hfuel : count - i < fuel) : (decodeCodes raw count fuel i).isSome := by
  induction fuel generalizing i with
  | zero => omega
  | succ fuel ih =>
    unfold decodeCodes
    split
    next hlt =>
      obtain ⟨opInfo, hopInfo⟩ : ∃ b, raw[2 * i + 1]? = some b :=
        ⟨raw[2 * i + 1], List.getElem?_eq_getElem (by omega)⟩
      obtain ⟨offset, hoffset⟩ : ∃ b, raw[2 * i]? = some b :=
        ⟨raw[2 * i], List.getElem?_eq_getElem (by omega)⟩
      have hslots : 1 ≤ slots (lowNibble opInfo).val (highNibble opInfo) := by
        unfold slots
        split_ifs <;> omega
      have hnext : count - (i + slots (lowNibble opInfo).val (highNibble opInfo)) < fuel := by omega
      obtain ⟨codes, hcodes⟩ := Option.isSome_iff_exists.mp (ih hnext)
      rw [hopInfo]
      simp [hoffset, hcodes]
    next => rfl

theorem readMem_run (reader : GuestReader) (address : Int) (size : Nat) :
    (readMem address size).run reader.get = ([(address, size)], reader.get (address, size)) := rfl

theorem GuestReader.get_of_read {reader : GuestReader} {address : Int} {size : Nat}
    {bytes : List UInt8} (h : reader.read address size = some bytes) :
    reader.get (address, size) = .ok bytes := by
  unfold GuestReader.get
  rw [h]

theorem GuestReader.get_of_none {reader : GuestReader} {address : Int} {size : Nat}
    (h : reader.read address size = none) :
    reader.get (address, size) = .error (.read address size) := by
  unfold GuestReader.get
  rw [h]

/-- The decoder gives back encoded unwind data, with the trailer just after it. -/
theorem readUnwindInfo_encode (e : EncodedUnwind) {reader : GuestReader} {address : Int}
    (h : reader.Holds address e.encode) :
    (readUnwindInfo address).run reader.get =
      ([(address, 4), (address + 4, 2 * slotTotal e.ops)], .ok (e.unwindInfo address)) := by
  have hlength := e.encode_length
  have hfits := e.fits
  have hheader : reader.read address 4 = some e.header := by
    have hread := h 0 4 (by omega)
    simpa [EncodedUnwind.encode, EncodedUnwind.header] using hread
  have hcodes : reader.read (address + 4) (2 * slotTotal e.ops) = some (encodeOps e.ops) := by
    have hread := h 4 (2 * slotTotal e.ops) (by omega)
    have hpart : (e.encode.drop 4).take (2 * slotTotal e.ops) = encodeOps e.ops := by
      unfold EncodedUnwind.encode
      rw [List.append_assoc]
      have hdrop : (e.header ++ (encodeOps e.ops ++
          if slotTotal e.ops % 2 = 0 then [] else [0, 0])).drop 4 =
          encodeOps e.ops ++ if slotTotal e.ops % 2 = 0 then [] else [0, 0] :=
        List.drop_left' rfl
      rw [hdrop, List.take_left' (encodeOps_length e.ops)]
    rw [hpart] at hread
    exact hread
  have hcount : (UInt8.ofNat (slotTotal e.ops)).toNat = slotTotal e.ops := by
    rw [UInt8.toNat_ofNat']
    omega
  have hdecode : decodeCodes (encodeOps e.ops) (slotTotal e.ops) (slotTotal e.ops + 1) 0 =
      some (e.ops.map fun x => x.2.code x.1) :=
    decodeCodes_encodeOps (List.nil_append _).symm rfl (Nat.zero_add _).symm (Nat.lt_succ_self _)
  have hflags : (UInt8.ofNat (e.version.val + 8 * e.flags.val)).toNat / 8 = e.flags.val := by
    have hv := e.version.isLt
    have hf := e.flags.isLt
    rw [UInt8.toNat_ofNat']
    omega
  have hframe : lowNibble (UInt8.ofNat (e.frameReg.val + 16 * e.frameOffset.val)) = e.frameReg ∧
      (highNibble (UInt8.ofNat (e.frameReg.val + 16 * e.frameOffset.val))).val =
        e.frameOffset.val := by
    have hr := e.frameReg.isLt
    have ho := e.frameOffset.isLt
    have hval : (UInt8.ofNat (e.frameReg.val + 16 * e.frameOffset.val)).toNat =
        e.frameReg.val + 16 * e.frameOffset.val := by
      rw [UInt8.toNat_ofNat']
      omega
    constructor
    · apply Fin.ext
      show (UInt8.ofNat _).toNat % 16 = e.frameReg.val
      omega
    · show (UInt8.ofNat _).toNat / 16 = e.frameOffset.val
      omega
  unfold readUnwindInfo
  rw [LoggedReads.bind_run_ok ((readMem_run ..).trans (by rw [GuestReader.get_of_read hheader]))]
  unfold EncodedUnwind.header
  simp only [hcount]
  rw [LoggedReads.bind_run_ok ((readMem_run ..).trans (by rw [GuestReader.get_of_read hcodes]))]
  simp only [hdecode, hflags, hframe.1, hframe.2]
  unfold EncodedUnwind.unwindInfo
  rw [hlength]
  simp [add_assoc]

/-- The range of unwind data, whose count byte is the third one of the header. -/
def GuestReader.InRange (reader : GuestReader) (address : Int) (range : Int × Nat) : Prop :=
  address ≤ range.1 ∧ ∃ count, (∀ header, reader.read address 4 = some header →
    (header[2]?).map UInt8.toNat = some count) ∧ range.1 + range.2 ≤ address + 4 + 2 * (count : Int)

/-- The decoder fails only with a read, and reads only the header and the slots. -/
theorem readUnwindInfo_run (reader : GuestReader) (address : Int) :
    (∀ fault, ((readUnwindInfo address).run reader.get).2 = .error fault →
      ∃ range : Int × Nat, range ∈ ((readUnwindInfo address).run reader.get).1 ∧
        fault = .read range.1 range.2 ∧ reader.read range.1 range.2 = none) ∧
    ∀ range ∈ ((readUnwindInfo address).run reader.get).1, reader.InRange address range := by
  cases hheader : reader.read address 4 with
  | none =>
    have hrun : (readUnwindInfo address).run reader.get =
        ([(address, 4)], .error (.read address 4)) := by
      unfold readUnwindInfo
      rw [LoggedReads.bind_run_error
        ((readMem_run ..).trans (by rw [GuestReader.get_of_none hheader]))]
    rw [hrun]
    refine ⟨fun fault h => ⟨(address, 4), List.mem_cons_self, (Except.error.inj h).symm, hheader⟩, ?_⟩
    intro range hrange
    rw [List.mem_singleton.mp hrange]
    exact ⟨Int.le_refl _, 0, fun header h => absurd (hheader.symm.trans h) (by simp), by simp⟩
  | some header =>
    have hlen := reader.length _ _ _ hheader
    obtain ⟨versionFlags, prologSize, count, frame, rfl⟩ : ∃ a b c d, header = [a, b, c, d] := by
      match header, hlen with
      | [a, b, c, d], _ => exact ⟨a, b, c, d, rfl⟩
    have hcount : ∀ header, reader.read address 4 = some header →
        (header[2]?).map UInt8.toNat = some count.toNat := by
      intro header h
      rw [← Option.some.inj (hheader.symm.trans h)]
      rfl
    have hfirst : reader.InRange address (address, 4) := ⟨Int.le_refl _, _, hcount, by omega⟩
    have hsecond : reader.InRange address (address + 4, 2 * count.toNat) := by
      refine ⟨?_, _, hcount, ?_⟩
      · show address ≤ address + 4
        omega
      · show address + 4 + ((2 * count.toNat : Nat) : Int) ≤ _
        omega
    have hall : ∀ range ∈ [(address, 4), (address + 4, 2 * count.toNat)],
        reader.InRange address range := by
      intro range hrange
      rcases List.mem_cons.mp hrange with rfl | hrange
      · exact hfirst
      · rw [List.mem_singleton.mp hrange]
        exact hsecond
    cases hraw : reader.read (address + 4) (2 * count.toNat) with
    | none =>
      have hrun : (readUnwindInfo address).run reader.get =
          ([(address, 4), (address + 4, 2 * count.toNat)],
            .error (.read (address + 4) (2 * count.toNat))) := by
        unfold readUnwindInfo
        rw [LoggedReads.bind_run_ok
          ((readMem_run ..).trans (by rw [GuestReader.get_of_read hheader]))]
        simp only
        rw [LoggedReads.bind_run_error
          ((readMem_run ..).trans (by rw [GuestReader.get_of_none hraw]))]
        rfl
      rw [hrun]
      exact ⟨fun fault h => ⟨_, List.mem_cons_of_mem _ List.mem_cons_self, (Except.error.inj h).symm,
        hraw⟩, hall⟩
    | some raw =>
      obtain ⟨codes, hcodes⟩ := Option.isSome_iff_exists.mp
        (decodeCodes_isSome (reader.length _ _ _ hraw) (Nat.lt_succ_self (count.toNat - 0)))
      have hrun : ∃ info, (readUnwindInfo address).run reader.get =
          ([(address, 4), (address + 4, 2 * count.toNat)], .ok info) := by
        unfold readUnwindInfo
        rw [LoggedReads.bind_run_ok
          ((readMem_run ..).trans (by rw [GuestReader.get_of_read hheader]))]
        simp only
        rw [LoggedReads.bind_run_ok
          ((readMem_run ..).trans (by rw [GuestReader.get_of_read hraw]))]
        have hcodes' : decodeCodes raw count.toNat (count.toNat + 1) 0 = some codes := hcodes
        rw [hcodes']
        exact ⟨_, rfl⟩
      obtain ⟨info, hrun⟩ := hrun
      rw [hrun]
      have hok : ∀ fault : UnwindFault, (.ok info : Except UnwindFault UnwindInfo) ≠ .error fault :=
        fun fault h => nomatch h
      exact ⟨fun fault h => absurd h (hok fault), hall⟩

/-- Decoding undoes encoding, and ends for every memory without a read outside of the unwind data. -/
theorem readUnwindInfo_law :
    (∀ (e : EncodedUnwind) (reader : GuestReader) (address : Int), reader.Holds address e.encode →
      ((readUnwindInfo address).run reader.get).2 = .ok (e.unwindInfo address)) ∧
    ∀ (reader : GuestReader) (address : Int),
      (∀ fault, ((readUnwindInfo address).run reader.get).2 = .error fault →
        ∃ range : Int × Nat, range ∈ ((readUnwindInfo address).run reader.get).1 ∧
          fault = .read range.1 range.2 ∧ reader.read range.1 range.2 = none) ∧
      ∀ range ∈ ((readUnwindInfo address).run reader.get).1, reader.InRange address range := by
  refine ⟨fun e reader address h => ?_, readUnwindInfo_run⟩
  rw [readUnwindInfo_encode e h]

end Speakeasy
