import Speakeasy.ByteMemory
import Speakeasy.GdbBreakpoints

namespace Speakeasy

section

open PyBytes

/-- A register of the wire format. Without a `unicornId`, it is read as 0 and not written. -/
structure RegisterInfo where
  name : String
  unicornId : Option String
  size : Nat
  group : String := ""

inductive RegValue
  | int (value : Nat)
  /-- The mantissa and the exponent of an x87 register. -/
  | float (mantissa exponent : Nat)
deriving DecidableEq

def generalRegisters (amd64 : Bool) : List RegisterInfo :=
  if amd64 then
    [⟨"rax", "RAX", 8, ""⟩, ⟨"rbx", "RBX", 8, ""⟩, ⟨"rcx", "RCX", 8, ""⟩, ⟨"rdx", "RDX", 8, ""⟩,
      ⟨"rsi", "RSI", 8, ""⟩, ⟨"rdi", "RDI", 8, ""⟩, ⟨"rbp", "RBP", 8, ""⟩, ⟨"rsp", "RSP", 8, ""⟩,
      ⟨"r8", "R8", 8, ""⟩, ⟨"r9", "R9", 8, ""⟩, ⟨"r10", "R10", 8, ""⟩, ⟨"r11", "R11", 8, ""⟩,
      ⟨"r12", "R12", 8, ""⟩, ⟨"r13", "R13", 8, ""⟩, ⟨"r14", "R14", 8, ""⟩, ⟨"r15", "R15", 8, ""⟩,
      ⟨"rip", "RIP", 8, ""⟩, ⟨"eflags", "EFLAGS", 4, ""⟩]
  else
    [⟨"eax", "EAX", 4, ""⟩, ⟨"ecx", "ECX", 4, ""⟩, ⟨"edx", "EDX", 4, ""⟩, ⟨"ebx", "EBX", 4, ""⟩,
      ⟨"esp", "ESP", 4, ""⟩, ⟨"ebp", "EBP", 4, ""⟩, ⟨"esi", "ESI", 4, ""⟩, ⟨"edi", "EDI", 4, ""⟩,
      ⟨"eip", "EIP", 4, ""⟩, ⟨"eflags", "EFLAGS", 4, ""⟩]

def vectorRegisters (amd64 : Bool) : List RegisterInfo :=
  [⟨"xmm0", "XMM0", 16, "vector"⟩, ⟨"xmm1", "XMM1", 16, "vector"⟩, ⟨"xmm2", "XMM2", 16, "vector"⟩,
    ⟨"xmm3", "XMM3", 16, "vector"⟩, ⟨"xmm4", "XMM4", 16, "vector"⟩, ⟨"xmm5", "XMM5", 16, "vector"⟩,
    ⟨"xmm6", "XMM6", 16, "vector"⟩, ⟨"xmm7", "XMM7", 16, "vector"⟩] ++
  if amd64 then
    [⟨"xmm8", "XMM8", 16, "vector"⟩, ⟨"xmm9", "XMM9", 16, "vector"⟩, ⟨"xmm10", "XMM10", 16, "vector"⟩,
      ⟨"xmm11", "XMM11", 16, "vector"⟩, ⟨"xmm12", "XMM12", 16, "vector"⟩, ⟨"xmm13", "XMM13", 16, "vector"⟩,
      ⟨"xmm14", "XMM14", 16, "vector"⟩, ⟨"xmm15", "XMM15", 16, "vector"⟩]
  else []

/-- `_make_registers` -/
def makeRegisters (amd64 : Bool) : List RegisterInfo :=
  generalRegisters amd64 ++
  [⟨"cs", "CS", 4, ""⟩, ⟨"ss", "SS", 4, ""⟩, ⟨"ds", "DS", 4, ""⟩, ⟨"es", "ES", 4, ""⟩,
    ⟨"fs", "FS", 4, ""⟩, ⟨"gs", "GS", 4, ""⟩] ++
  [⟨"st0", "FP0", 10, "float"⟩, ⟨"st1", "FP1", 10, "float"⟩, ⟨"st2", "FP2", 10, "float"⟩,
    ⟨"st3", "FP3", 10, "float"⟩, ⟨"st4", "FP4", 10, "float"⟩, ⟨"st5", "FP5", 10, "float"⟩,
    ⟨"st6", "FP6", 10, "float"⟩, ⟨"st7", "FP7", 10, "float"⟩] ++
  [⟨"fctrl", "FPCW", 4, "float"⟩, ⟨"fstat", "FPSW", 4, "float"⟩, ⟨"ftag", "FPTAG", 4, "float"⟩,
    ⟨"fiseg", none, 4, "float"⟩, ⟨"fioff", "FIP", 4, "float"⟩, ⟨"foseg", none, 4, "float"⟩,
    ⟨"fooff", none, 4, "float"⟩, ⟨"fop", "FOP", 4, "float"⟩] ++
  vectorRegisters amd64 ++ [⟨"mxcsr", "MXCSR", 4, "vector"⟩]

variable {Mem : Type*}

/-- What the engine does at a write, where `none` is an exception that writes nothing. A register then
holds the result of `regWrite id old new`. -/
structure DebugEngine (Mem : Type*) where
  regWrite : String → RegValue → RegValue → Option RegValue
  memWrite : Mem → Nat → Packet → Option Mem
  acceptsHook : DebugHooks → HookCall → Bool

structure GdbMachine (Mem : Type*) where
  registers : String → RegValue
  memory : Mem
  debugger : Debugger

def RegisterInfo.value (register : RegisterInfo) (data : Packet) : RegValue :=
  if "st".toList.isPrefixOf register.name.toList then .float (fromBytes (data.take 8)) (fromBytes (data.drop 8))
  else .int (fromBytes data)

namespace DebugEngine

variable (e : DebugEngine Mem)

/-- `_write_register_value` -/
def writeRegisterValue (registers : String → RegValue) (register : RegisterInfo) (data : Packet) :
    Except PyError (String → RegValue) :=
  match register.unicornId with
  | none => .ok registers
  | some id =>
    match e.regWrite id (registers id) (register.value data) with
    | none => .error .other
    | some held => .ok (Function.update registers id held)

/-- The loop of `_write_registers`, with the data that it leaves. -/
def writeSlots (registers : String → RegValue) :
    List RegisterInfo → Packet → Except PyError Packet × (String → RegValue)
  | [], data => (.ok data, registers)
  | register :: rest, data =>
    if (data.take register.size).length ≠ register.size then (.error .value, registers)
    else
      match e.writeRegisterValue registers register (data.take register.size) with
      | .error err => (.error err, registers)
      | .ok registers => writeSlots registers rest (data.drop register.size)

variable (infos : List RegisterInfo) (m : GdbMachine Mem)

def writeRegisters (encoded : Packet) : Except PyError Unit × GdbMachine Mem :=
  match fromHex encoded with
  | none => (.error .value, m)
  | some data =>
    match e.writeSlots m.registers infos data with
    | (.error err, registers) => (.error err, { m with registers := registers })
    | (.ok rest, registers) =>
      (if rest ≠ [] then .error .value else .ok (), { m with registers := registers })

def writeRegister (payload : Packet) : Except PyError Unit × GdbMachine Mem :=
  match split 0x3D 1 payload with
  | [indexText, valueText] =>
    match intHex indexText with
    | none => (.error .value, m)
    | some index =>
      if index < 0 then (.error .index, m)
      else
        match infos[index.toNat]? with
        | none => (.error .index, m)
        | some register =>
          match fromHex valueText with
          | none => (.error .value, m)
          | some value =>
            if value.length ≠ register.size then (.error .value, m)
            else
              match e.writeRegisterValue m.registers register value with
              | .error err => (.error err, m)
              | .ok registers => (.ok (), { m with registers := registers })
  | _ => (.error .value, m)

/-- The end of both memory writes. -/
def writeMemory (address size : Int) (data : Packet) : Except PyError Unit × GdbMachine Mem :=
  if address < 0 ∨ size < 0 ∨ (data.length : Int) ≠ size then (.error .value, m)
  else
    match e.memWrite m.memory address.toNat data with
    | none => (.error .other, m)
    | some memory => (.ok (), { m with memory := memory })

/-- Address and size before the colon of a memory write. -/
def memoryRange (info : Packet) : Option (Int × Int) :=
  match split 0x2C 1 info with
  | [addressText, sizeText] =>
    match intHex addressText, intHex sizeText with
    | some address, some size => some (address, size)
    | _, _ => none
  | _ => none

def writeMemoryHex (payload : Packet) : Except PyError Unit × GdbMachine Mem :=
  match split 0x3A 1 payload with
  | [info, encoded] =>
    match memoryRange info, fromHex encoded with
    | some (address, size), some data => e.writeMemory m address size data
    | _, _ => (.error .value, m)
  | _ => (.error .value, m)

def writeMemoryBinary (payload : Packet) : Except PyError Unit × GdbMachine Mem :=
  match split 0x3A 1 payload with
  | [info, data] =>
    match memoryRange info with
    | some (address, size) => e.writeMemory m address size data
    | none => (.error .value, m)
  | _ => (.error .value, m)

def changeBreakpoint (payload : Packet) : Packet × GdbMachine Mem :=
  let (reply, debugger) := m.debugger.changeBreakpoint e.acceptsHook payload
  (reply, { m with debugger := debugger })

/-- The commands that change the machine. `others` has the answers to the other commands. -/
def target (others : Target) : Target :=
  { others with
    writeRegisters := fun payload => (e.writeRegisters infos m payload).1
    writeRegister := fun payload => (e.writeRegister infos m payload).1
    writeMemoryHex := fun payload => (e.writeMemoryHex m payload).1
    writeMemoryBinary := fun payload => (e.writeMemoryBinary m payload).1
    changeBreakpoint := fun payload => .ok (e.changeBreakpoint m payload).1 }

/-- The machine after a packet of `_handle_command`. -/
def afterCommand (payload : Packet) : GdbMachine Mem :=
  if rsp "G" <+: payload then (e.writeRegisters infos m (payload.drop 1)).2
  else if rsp "P" <+: payload then (e.writeRegister infos m (payload.drop 1)).2
  else if rsp "M" <+: payload then (e.writeMemoryHex m (payload.drop 1)).2
  else if rsp "X" <+: payload then (e.writeMemoryBinary m (payload.drop 1)).2
  else if payload.take 1 = rsp "Z" ∨ payload.take 1 = rsp "z" then (e.changeBreakpoint m payload).2
  else m

end DebugEngine

end

section

namespace DebugEngine

variable {Mem : Type*} (e : DebugEngine Mem)

/-- The registers of which a `G` packet has all bytes, with those bytes. -/
def slots : List RegisterInfo → List UInt8 → List (RegisterInfo × Packet)
  | [], _ => []
  | register :: rest, data =>
    if data.length < register.size then []
    else (register, data.take register.size) :: slots rest (data.drop register.size)

def Refuses (registers : String → RegValue) (slot : RegisterInfo × Packet) : Prop :=
  ∃ id, slot.1.unicornId = some id ∧ e.regWrite id (registers id) (slot.1.value slot.2) = none

instance (registers : String → RegValue) (slot : RegisterInfo × Packet) : Decidable (e.Refuses registers slot) :=
  match h : slot.1.unicornId with
  | none => isFalse fun ⟨_, hid, _⟩ => by rw [h] at hid; cases hid
  | some id => decidable_of_iff (e.regWrite id (registers id) (slot.1.value slot.2) = none)
      ⟨fun hnone => ⟨id, h, hnone⟩, fun ⟨_, hid, hnone⟩ => by rw [h] at hid; cases hid; exact hnone⟩

/-- The register holds another value after the write. -/
def Changes (registers : String → RegValue) (slot : RegisterInfo × Packet) : Prop :=
  ∃ id held, slot.1.unicornId = some id ∧
    e.regWrite id (registers id) (slot.1.value slot.2) = some held ∧ held ≠ registers id

/-- The slots before the first that the engine refuses. -/
def writtenSlots (registers : String → RegValue) (infos : List RegisterInfo) (data : Packet) :
    List (RegisterInfo × Packet) :=
  (slots infos data).takeWhile fun slot => !decide (e.Refuses registers slot)

variable {e}

theorem writeRegisterValue_refuses {registers : String → RegValue} {register : RegisterInfo} {data : Packet}
    (h : e.Refuses registers (register, data)) :
    e.writeRegisterValue registers register data = .error .other := by
  obtain ⟨id, hid, hnone⟩ := h
  have hid : register.unicornId = some id := hid
  unfold writeRegisterValue
  rw [hid]
  simp only [hnone]

/-- A write that is not refused changes at most its own register. -/
theorem writeRegisterValue_ok {registers : String → RegValue} {register : RegisterInfo} {data : Packet}
    (h : ¬e.Refuses registers (register, data)) :
    ∃ registers', e.writeRegisterValue registers register data = .ok registers' ∧
      (∀ id, register.unicornId ≠ some id → registers' id = registers id) ∧
      (registers' = registers ↔ ¬e.Changes registers (register, data)) ∧
      ∀ id, register.unicornId = some id → registers' id = registers id → registers' = registers := by
  cases hid : register.unicornId with
  | none =>
    refine ⟨registers, by rw [writeRegisterValue, hid], fun _ _ => rfl, ?_, fun _ _ _ => rfl⟩
    refine iff_of_true rfl ?_
    rintro ⟨id, _, hsome, _⟩
    have hsome : register.unicornId = some id := hsome
    rw [hid] at hsome
    cases hsome
  | some id =>
    cases hheld : e.regWrite id (registers id) (register.value data) with
    | none => exact absurd ⟨id, hid, hheld⟩ h
    | some held =>
      refine ⟨Function.update registers id held, ?_, ?_, ?_, ?_⟩
      · unfold writeRegisterValue
        rw [hid]
        simp only [hheld]
      · intro other hother
        refine Function.update_of_ne ?_ _ _
        intro heq
        exact hother (by rw [heq])
      · rw [Function.update_eq_self_iff]
        constructor
        · rintro hsame ⟨id', held', hid', hheld', hne⟩
          have hid' : register.unicornId = some id' := hid'
          rw [hid] at hid'
          cases hid'
          have hheld' : e.regWrite id (registers id) (register.value data) = some held' := hheld'
          rw [hheld] at hheld'
          cases hheld'
          exact hne hsame
        · intro hno
          by_contra hne
          exact hno ⟨id, held, hid, hheld, hne⟩
      · intro id' hid' hsame
        cases hid'
        rw [Function.update_self] at hsame
        rw [Function.update_eq_self_iff, hsame]

/-- Slots of other registers see the same values. -/
theorem refuses_congr {registers registers' : String → RegValue} {slot : RegisterInfo × Packet}
    (h : ∀ id, slot.1.unicornId = some id → registers' id = registers id) :
    e.Refuses registers' slot ↔ e.Refuses registers slot := by
  unfold Refuses
  refine exists_congr fun id => and_congr_right fun hid => ?_
  rw [h id hid]

theorem mem_slots {infos : List RegisterInfo} {data : Packet} {slot : RegisterInfo × Packet}
    (h : slot ∈ slots infos data) : slot.1 ∈ infos := by
  induction infos generalizing data with
  | nil => cases h
  | cons register rest ih =>
    unfold slots at h
    split at h
    next => cases h
    next =>
      cases List.mem_cons.mp h with
      | inl heq => rw [heq]; exact List.mem_cons_self
      | inr hin => exact List.mem_cons_of_mem _ (ih hin)

theorem takeWhile_congr {α : Type*} {p q : α → Bool} {l : List α} (h : ∀ a ∈ l, p a = q a) :
    l.takeWhile p = l.takeWhile q := by
  induction l with
  | nil => rfl
  | cons a l ih =>
    rw [List.takeWhile_cons, List.takeWhile_cons, h a List.mem_cons_self,
      ih fun b hb => h b (List.mem_cons_of_mem _ hb)]

/-- What the loop of `_write_registers` does: it succeeds on data of the right length that the engine does
not refuse, and it leaves the registers alone when no slot that it writes changes one. -/
theorem writeSlots_spec {infos : List RegisterInfo} (hnodup : (infos.filterMap RegisterInfo.unicornId).Nodup)
    (registers : String → RegValue) (data : Packet) :
    ((e.writeSlots registers infos data).1 = .ok [] ↔
      data.length = (infos.map RegisterInfo.size).sum ∧ ∀ slot ∈ slots infos data, ¬e.Refuses registers slot) ∧
    (∀ id, id ∉ infos.filterMap RegisterInfo.unicornId → (e.writeSlots registers infos data).2 id = registers id) ∧
    ((e.writeSlots registers infos data).2 = registers ↔
      ∀ slot ∈ e.writtenSlots registers infos data, ¬e.Changes registers slot) := by
  induction infos generalizing registers data with
  | nil =>
    refine ⟨?_, fun _ _ => rfl, iff_of_true rfl fun slot hslot => (by cases hslot)⟩
    show Except.ok data = Except.ok [] ↔ _
    rw [Except.ok.injEq, ← List.length_eq_zero_iff]
    exact (and_iff_left fun slot hslot => (by cases hslot)).symm
  | cons register rest ih =>
    have hrest : (rest.filterMap RegisterInfo.unicornId).Nodup := by
      cases hid : register.unicornId with
      | none => rwa [List.filterMap_cons_none hid] at hnodup
      | some id =>
        rw [List.filterMap_cons_some hid] at hnodup
        exact (List.nodup_cons.mp hnodup).2
    by_cases hlen : data.length < register.size
    · have hshort : (data.take register.size).length ≠ register.size := by
        rw [List.length_take]
        omega
      have hnone : slots (register :: rest) data = [] := by rw [slots, if_pos hlen]
      have hwrite : e.writeSlots registers (register :: rest) data = (.error .value, registers) := by
        rw [writeSlots, if_pos hshort]
      rw [hwrite, writtenSlots, hnone]
      refine ⟨⟨fun hok => (by cases hok), fun hsum => ?_⟩, fun _ _ => rfl, by simp⟩
      rw [List.map_cons, List.sum_cons] at hsum
      omega
    · have hfull : ¬(data.take register.size).length ≠ register.size := by
        rw [List.length_take]
        omega
      have hcons : slots (register :: rest) data =
          (register, data.take register.size) :: slots rest (data.drop register.size) := by
        rw [slots, if_neg hlen]
      by_cases hrefuse : e.Refuses registers (register, data.take register.size)
      · have hwrite : e.writeSlots registers (register :: rest) data = (.error .other, registers) := by
          rw [writeSlots, if_neg hfull, writeRegisterValue_refuses hrefuse]
        rw [hwrite, writtenSlots, hcons, List.takeWhile_cons_of_neg (by simp [hrefuse])]
        refine ⟨⟨fun hok => (by cases hok), fun hall => ?_⟩, fun _ _ => rfl, by simp⟩
        exact absurd hrefuse (hall.2 _ List.mem_cons_self)
      · obtain ⟨registers', hok, hframe, hsame, hback⟩ := writeRegisterValue_ok hrefuse
        have hwrite : e.writeSlots registers (register :: rest) data =
            e.writeSlots registers' rest (data.drop register.size) := by
          rw [writeSlots, if_neg hfull, hok]
        have hother : ∀ id, id ∈ rest.filterMap RegisterInfo.unicornId → registers' id = registers id := by
          intro id hid
          refine hframe id fun heq => ?_
          rw [List.filterMap_cons_some heq] at hnodup
          exact (List.nodup_cons.mp hnodup).1 hid
        have hslot : ∀ slot ∈ slots rest (data.drop register.size), ∀ id,
            slot.1.unicornId = some id → registers' id = registers id := fun slot hin id hid =>
          hother id (List.mem_filterMap.mpr ⟨slot.1, mem_slots hin, hid⟩)
        have hwritten : e.writtenSlots registers (register :: rest) data =
            (register, data.take register.size) :: e.writtenSlots registers' rest (data.drop register.size) := by
          have hcongr := takeWhile_congr (p := fun slot => !decide (e.Refuses registers slot))
            (q := fun slot => !decide (e.Refuses registers' slot)) (l := slots rest (data.drop register.size))
            fun slot hin => by rw [decide_eq_decide.mpr (refuses_congr (hslot slot hin))]
          rw [writtenSlots, hcons, List.takeWhile_cons_of_pos (by simp [hrefuse]), hcongr]
          rfl
        obtain ⟨hsuccess, hframes, hleft⟩ := ih hrest registers' (data.drop register.size)
        rw [hwrite]
        refine ⟨?_, ?_, ?_⟩
        · rw [hsuccess, hcons, List.forall_mem_cons, List.length_drop, List.map_cons, List.sum_cons]
          have hrefuses : (∀ slot ∈ slots rest (data.drop register.size), ¬e.Refuses registers' slot) ↔
              ∀ slot ∈ slots rest (data.drop register.size), ¬e.Refuses registers slot :=
            forall₂_congr fun slot hin => not_congr (refuses_congr (hslot slot hin))
          rw [hrefuses, and_iff_right hrefuse]
          refine and_congr_left fun _ => ?_
          omega
        · intro id hid
          have hnot : register.unicornId ≠ some id ∧ id ∉ rest.filterMap RegisterInfo.unicornId := by
            refine ⟨fun heq => hid ?_, fun hin => hid ?_⟩
            · rw [List.filterMap_cons_some heq]
              exact List.mem_cons_self
            · obtain ⟨r, hr, hrid⟩ := List.mem_filterMap.mp hin
              exact List.mem_filterMap.mpr ⟨r, List.mem_cons_of_mem _ hr, hrid⟩
          rw [hframes id hnot.2, hframe id hnot.1]
        · rw [hwritten, List.forall_mem_cons, ← hsame]
          constructor
          · intro hfinal
            have hregisters : registers' = registers := by
              cases hid : register.unicornId with
              | none =>
                refine hsame.mpr ?_
                rintro ⟨id, _, hsome, _⟩
                have hsome : register.unicornId = some id := hsome
                rw [hid] at hsome
                cases hsome
              | some id =>
                refine hback id hid ?_
                rw [List.filterMap_cons_some hid] at hnodup
                rw [← hframes id (List.nodup_cons.mp hnodup).1, hfinal]
            refine ⟨hregisters, ?_⟩
            rw [hregisters] at hleft hfinal ⊢
            exact hleft.mp hfinal
          · rintro ⟨hregisters, hall⟩
            rw [hregisters] at hleft hall ⊢
            exact hleft.mpr hall

end DebugEngine

end

end Speakeasy
