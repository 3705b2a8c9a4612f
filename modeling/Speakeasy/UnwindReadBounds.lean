import Speakeasy.UnwindInfo
import Speakeasy.UnwindEncoding

namespace Speakeasy

open LoggedReads

/-- The decoder gives at most one code for each slot. -/
theorem decodeCodes_length {raw : List UInt8} {count fuel i : Nat} {codes : List UnwindCode}
    (h : decodeCodes raw count fuel i = some codes) : codes.length ≤ count - i := by
  induction fuel generalizing i codes with
  | zero => cases h
  | succ fuel ih =>
    unfold decodeCodes at h
    split at h
    next hlt =>
      obtain ⟨opInfo, _, h⟩ := Option.bind_eq_some_iff.mp h
      obtain ⟨offset, _, h⟩ := Option.bind_eq_some_iff.mp h
      obtain ⟨rest, hrest, h⟩ := Option.bind_eq_some_iff.mp h
      have hpos : 1 ≤ slots (lowNibble opInfo).val (highNibble opInfo) := by
        unfold slots
        split_ifs <;> omega
      have hle := ih hrest
      rw [← Option.some.inj h, List.length_cons]
      omega
    next =>
      rw [← Option.some.inj h]
      exact Nat.zero_le _

section

variable {reader : GuestReader}

theorem readUnwindInfo_codes {address : Int} {info : UnwindInfo}
    (h : ((readUnwindInfo address).run reader.get).2 = .ok info) : info.codes.length ≤ 255 := by
  obtain ⟨header, _, h⟩ := bind_eq_ok.mp h
  split at h
  next versionFlags prologSize count frame _ =>
    obtain ⟨raw, _, h⟩ := bind_eq_ok.mp h
    split at h
    next => cases h
    next codes hcodes =>
      have hle := decodeCodes_length hcodes
      have hcount := count.toNat_lt
      rw [← Except.ok.inj h]
      show codes.length ≤ 255
      omega
  next => cases h

theorem readUnwindInfo_readCount (address : Int) :
    readCount reader.get (readUnwindInfo address) ≤ 2 := by
  unfold readUnwindInfo
  refine readCount_bind_le 1 1 (Nat.le_refl _) fun header _ => ?_
  split
  · refine readCount_bind_le 1 0 (Nat.le_refl _) fun raw _ => ?_
    split
    · exact Nat.le_refl _
    · exact Nat.le_refl _
  · exact Nat.zero_le _

/-- A computation of the unwinder fails with a read, or because a chain is too long. -/
abbrev FailsByRead {α : Type} (reader : GuestReader) (c : UnwindReads α) : Prop :=
  Explained reader.get (fun fault => fault = .chain) c

theorem readUnwindInfo_failsByRead (address : Int) : FailsByRead reader (readUnwindInfo address) := by
  intro fault h
  obtain ⟨range, hrange, rfl, hnone⟩ := (readUnwindInfo_run reader address).1 fault h
  exact Or.inr ⟨range, hrange, GuestReader.get_of_none hnone⟩

theorem readU64_failsByRead (address : Int) : FailsByRead reader (readU64 address) :=
  (explained_ask _).bind fun _ => explained_pure _

theorem readU64_readCount (address : Int) : readCount reader.get (readU64 address) ≤ 1 := by
  unfold readU64
  exact readCount_bind_le 1 0 (Nat.le_refl _) fun _ _ => Nat.le_refl _

/-- What a code reads: nothing, a register, an XMM register, or the two values of a machine frame. -/
theorem applyCode_reads (info : UnwindInfo) (frame : Int) (c : UnwindCode) (s : UnwindState) :
    (∃ s', applyCode info frame c s = Pure.pure s') ∨
    (∃ address, ∃ f : UInt64 → UnwindState, applyCode info frame c s =
      readU64 address >>= fun value => Pure.pure (f value)) ∨
    (∃ address, ∃ f : List UInt8 → UnwindState, applyCode info frame c s =
      readMem address 16 >>= fun bytes => Pure.pure (f bytes)) ∨
    ∃ sp, ∃ f : UInt64 → UInt64 → UnwindState, applyCode info frame c s =
      readU64 sp >>= fun rip => readU64 (sp + 24) >>= fun rsp => Pure.pure (f rip rsp) := by
  unfold applyCode
  by_cases h0 : c.op = uwopPushNonvol
  · exact Or.inr (Or.inl ⟨_, _, if_pos h0⟩)
  simp only [if_neg h0]
  by_cases h1 : c.op = uwopAllocLarge
  · exact Or.inl ⟨_, if_pos h1⟩
  simp only [if_neg h1]
  by_cases h2 : c.op = uwopAllocSmall
  · exact Or.inl ⟨_, if_pos h2⟩
  simp only [if_neg h2]
  by_cases h3 : c.op = uwopSetFpreg
  · exact Or.inl ⟨_, if_pos h3⟩
  simp only [if_neg h3]
  by_cases h4 : c.op = uwopSaveNonvol
  · exact Or.inr (Or.inl ⟨_, _, if_pos h4⟩)
  simp only [if_neg h4]
  by_cases h5 : c.op = uwopSaveNonvolFar
  · exact Or.inr (Or.inl ⟨_, _, if_pos h5⟩)
  simp only [if_neg h5]
  by_cases h6 : c.op = uwopSaveXmm128 ∨ c.op = uwopSaveXmm128Far
  · exact Or.inr (Or.inr (Or.inl ⟨_, _, if_pos h6⟩))
  simp only [if_neg h6]
  by_cases h7 : c.op = uwopPushMachframe
  · exact Or.inr (Or.inr (Or.inr ⟨_, _, if_pos h7⟩))
  · exact Or.inl ⟨s, if_neg h7⟩

theorem applyCode_failsByRead (info : UnwindInfo) (frame : Int) (c : UnwindCode) (s : UnwindState) :
    FailsByRead reader (applyCode info frame c s) := by
  rcases applyCode_reads info frame c s with ⟨s', h⟩ | ⟨address, f, h⟩ | ⟨address, f, h⟩ | ⟨sp, f, h⟩
  · rw [h]
    exact explained_pure _
  · rw [h]
    exact (readU64_failsByRead _).bind fun _ => explained_pure _
  · rw [h]
    exact (explained_ask _).bind fun _ => explained_pure _
  · rw [h]
    refine (readU64_failsByRead _).bind fun _ => ?_
    exact (readU64_failsByRead _).bind fun _ => explained_pure _

theorem applyCode_readCount (info : UnwindInfo) (frame : Int) (c : UnwindCode) (s : UnwindState) :
    readCount reader.get (applyCode info frame c s) ≤ 2 := by
  rcases applyCode_reads info frame c s with ⟨s', h⟩ | ⟨address, f, h⟩ | ⟨address, f, h⟩ | ⟨sp, f, h⟩
  · rw [h]
    exact Nat.zero_le _
  · rw [h]
    exact readCount_bind_le 1 1 (readU64_readCount _) fun _ _ => Nat.zero_le _
  · rw [h]
    exact readCount_bind_le 1 1 (Nat.le_refl _) fun _ _ => Nat.zero_le _
  · rw [h]
    refine readCount_bind_le 1 1 (readU64_readCount _) fun _ _ => ?_
    exact readCount_bind_le 1 0 (readU64_readCount _) fun _ _ => Nat.le_refl _

theorem applyCodes_failsByRead (offset : Nat) (info : UnwindInfo) (frame : Int)
    (codes : List UnwindCode) (s : UnwindState) :
    FailsByRead reader (applyCodes offset info frame codes s) := by
  induction codes generalizing s with
  | nil => exact explained_pure _
  | cons c codes ih =>
    unfold applyCodes
    split
    · exact ih s
    · exact (applyCode_failsByRead info frame c s).bind ih

theorem applyCodes_readCount (offset : Nat) (info : UnwindInfo) (frame : Int)
    (codes : List UnwindCode) (s : UnwindState) :
    readCount reader.get (applyCodes offset info frame codes s) ≤ 2 * codes.length := by
  induction codes generalizing s with
  | nil => exact Nat.zero_le _
  | cons c codes ih =>
    rw [List.length_cons]
    unfold applyCodes
    split
    · exact (ih s).trans (by omega)
    · have hle := readCount_bind_le 2 (2 * codes.length)
        (applyCode_readCount info frame c s) fun s' _ => ih s'
      exact hle.trans (by omega)

theorem readRuntimeFunction_failsByRead (base address : Int) :
    FailsByRead reader (readRuntimeFunction base address) :=
  (explained_ask _).bind fun _ => explained_pure _

theorem readRuntimeFunction_readCount (base address : Int) :
    readCount reader.get (readRuntimeFunction base address) ≤ 1 := by
  unfold readRuntimeFunction
  exact readCount_bind_le 1 0 (Nat.le_refl _) fun _ _ => Nat.le_refl _

theorem unwindChain_failsByRead (base pc frame : Int) (rounds : Nat) (fn : RuntimeFunction)
    (info : UnwindInfo) (s : UnwindState) :
    FailsByRead reader (unwindChain base pc frame rounds fn info s) := by
  induction rounds generalizing fn info s with
  | zero => exact explained_fail rfl
  | succ rounds ih =>
    unfold unwindChain
    refine (applyCodes_failsByRead _ _ _ _ _).bind fun s => ?_
    split
    · exact explained_pure _
    · refine (readRuntimeFunction_failsByRead _ _).bind fun fn => ?_
      exact (readUnwindInfo_failsByRead _).bind fun info => ih fn info s

/-- A round reads what its codes need, and the next record. -/
theorem unwindChain_readCount (base pc frame : Int) (rounds : Nat) (fn : RuntimeFunction)
    {info : UnwindInfo} (hcodes : info.codes.length ≤ 255) (s : UnwindState) :
    readCount reader.get (unwindChain base pc frame rounds fn info s) ≤ rounds * (2 * 255 + 3) := by
  induction rounds generalizing fn info s with
  | zero => exact Nat.zero_le _
  | succ rounds ih =>
    unfold unwindChain
    have hround : ∀ s', readCount reader.get (if info.flags &&& flagChainInfo = 0 then
        Pure.pure (fn, info, s')
      else readRuntimeFunction base info.trailer >>= fun fn =>
        readUnwindInfo (base + fn.unwindInfo.toNat) >>= fun info =>
          unwindChain base pc frame rounds fn info s') ≤ 3 + rounds * (2 * 255 + 3) := by
      intro s'
      split
      · exact Nat.zero_le _
      · rw [show 3 + rounds * (2 * 255 + 3) = 1 + (2 + rounds * (2 * 255 + 3)) by omega]
        refine readCount_bind_le 1 _ (readRuntimeFunction_readCount _ _) fun fn' _ => ?_
        refine readCount_bind_le 2 _ (readUnwindInfo_readCount _) fun info' hinfo => ?_
        exact ih fn' (readUnwindInfo_codes hinfo) s'
    have hall := readCount_bind_le (2 * info.codes.length) (3 + rounds * (2 * 255 + 3))
      (applyCodes_readCount (prologOffset fn pc) info frame info.codes s)
      fun s' _ => hround s'
    exact hall.trans (by omega)

theorem readHandler_failsByRead (base pc : Int) (handlerType : Nat) (fn : RuntimeFunction)
    (info : UnwindInfo) : FailsByRead reader (readHandler base pc handlerType fn info) := by
  unfold readHandler
  split
  · exact ((explained_ask _).bind fun _ => explained_pure _).bind fun _ => explained_pure _
  · exact explained_pure _

theorem readHandler_readCount (base pc : Int) (handlerType : Nat) (fn : RuntimeFunction)
    (info : UnwindInfo) : readCount reader.get (readHandler base pc handlerType fn info) ≤ 1 := by
  unfold readHandler
  split
  · refine readCount_bind_le 1 0 ?_ fun _ _ => Nat.le_refl _
    unfold readU32
    exact readCount_bind_le 1 0 (Nat.le_refl _) fun _ _ => Nat.le_refl _
  · exact Nat.zero_le _

theorem unwindLeaf_failsByRead (ctx : Context64) : FailsByRead reader (unwindLeaf ctx) :=
  (readU64_failsByRead _).bind fun _ => explained_pure _

theorem unwindLeaf_readCount (ctx : Context64) : readCount reader.get (unwindLeaf ctx) ≤ 1 := by
  unfold unwindLeaf
  exact readCount_bind_le 1 0 (readU64_readCount _) fun _ _ => Nat.le_refl _

theorem virtualUnwind_failsByRead (fn : RuntimeFunction) (pc : Int) (ctx : Context64)
    (handlerType : Nat) : FailsByRead reader (virtualUnwind fn pc ctx handlerType) := by
  unfold virtualUnwind
  refine (readUnwindInfo_failsByRead _).bind fun info => ?_
  refine (unwindChain_failsByRead _ _ _ _ _ _ _).bind fun x => ?_
  refine (readHandler_failsByRead _ _ _ _ _).bind fun y => ?_
  simp only
  split
  · exact (explained_pure _).bind fun _ => explained_pure _
  · exact (unwindLeaf_failsByRead _).bind fun _ => explained_pure _

/-- The number of reads that an unwind makes at most. -/
def maxReads : Nat := 2 + (maxChain * (2 * 255 + 3) + (1 + 1))

theorem virtualUnwind_readCount (fn : RuntimeFunction) (pc : Int) (ctx : Context64)
    (handlerType : Nat) : readCount reader.get (virtualUnwind fn pc ctx handlerType) ≤ maxReads := by
  unfold virtualUnwind
  refine readCount_bind_le 2 _ (readUnwindInfo_readCount _) fun info hinfo => ?_
  refine readCount_bind_le _ _
    (unwindChain_readCount _ _ _ _ _ (readUnwindInfo_codes hinfo) _) fun x _ => ?_
  refine readCount_bind_le 1 1 (readHandler_readCount _ _ _ _ _) fun y _ => ?_
  simp only
  split
  · exact Nat.zero_le _
  · exact readCount_bind_le 1 0 (unwindLeaf_readCount _) fun _ _ => Nat.le_refl _

end

end Speakeasy
