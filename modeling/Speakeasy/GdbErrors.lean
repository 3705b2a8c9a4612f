import Speakeasy.GdbSlots
import Speakeasy.GdbXfer

namespace Speakeasy

section

open PyBytes

/-! Which packets get `E01` and yet change something. -/

namespace BreakpointTable

/-- A `Z` packet for this type, address and size was there. -/
def Has (t : BreakpointTable) (type address size : Int) : Prop :=
  if type = 2 then (address, size) ∈ t.writeWatchpoints.keys
  else if type = 3 then (address, size) ∈ t.readWatchpoints.keys
  else if type = 4 then (address, size) ∈ t.accessWatchpoints.keys
  else (address, size, type) ∈ t.execBreakpoints.keys

/-- The same breakpoints and watchpoints. -/
structure SameSets (t t' : BreakpointTable) : Prop where
  exec : ∀ b, b ∈ t'.execBreakpoints.keys ↔ b ∈ t.execBreakpoints.keys
  read : ∀ w, w ∈ t'.readWatchpoints.keys ↔ w ∈ t.readWatchpoints.keys
  write : ∀ w, w ∈ t'.writeWatchpoints.keys ↔ w ∈ t.writeWatchpoints.keys
  access : ∀ w, w ∈ t'.accessWatchpoints.keys ↔ w ∈ t.accessWatchpoints.keys

theorem SameSets.refl (t : BreakpointTable) : SameSets t t :=
  ⟨fun _ => Iff.rfl, fun _ => Iff.rfl, fun _ => Iff.rfl, fun _ => Iff.rfl⟩

/-- A key that is put where it is, or taken where it is not, changes no set of keys. -/
theorem same_keys_iff {κ α : Type*} [DecidableEq κ] (d : OrderedDict κ α) (set : Bool) (k : κ) (v : α) :
    (∀ a, a ∈ (if set then d.insert k v else d.pop k).keys ↔ a ∈ d.keys) ↔ (set = true ↔ k ∈ d.keys) := by
  cases set with
  | true =>
    simp only [if_true, OrderedDict.mem_keys_insert, true_iff]
    constructor
    · exact fun h => (h k).mp (Or.inr rfl)
    · exact fun h a => ⟨fun ha => ha.elim id fun heq => heq ▸ h, Or.inl⟩
  | false =>
    simp only [Bool.false_eq_true, if_false, OrderedDict.mem_keys_pop, false_iff]
    constructor
    · exact fun h hin => ((h k).mpr hin).2 rfl
    · exact fun h a => ⟨And.left, fun ha => ⟨ha, fun heq => h (heq ▸ ha)⟩⟩

/-- A change leaves the sets as they are when it sets what is set or removes what is not. -/
theorem change_same_iff {t t' : BreakpointTable} {set : Bool} {type address size : Int}
    (h : t.change set type address size = some t') :
    SameSets t t' ↔ (set = true ↔ t.Has type address size) := by
  unfold change at h
  split at h
  next hexec =>
    cases h
    have hhas : t.Has type address size ↔ (address, size, type) ∈ t.execBreakpoints.keys := by
      unfold Has
      rw [if_neg (by omega), if_neg (by omega), if_neg (by omega)]
    rw [hhas, ← same_keys_iff t.execBreakpoints set (address, size, type) type]
    exact ⟨SameSets.exec, fun hkeys => ⟨hkeys, fun _ => Iff.rfl, fun _ => Iff.rfl, fun _ => Iff.rfl⟩⟩
  split at h
  next htwo =>
    cases h
    have hhas : t.Has type address size ↔ (address, size) ∈ t.writeWatchpoints.keys := by
      unfold Has
      rw [if_pos htwo]
    rw [hhas, ← same_keys_iff t.writeWatchpoints set (address, size) type]
    exact ⟨SameSets.write, fun hkeys => ⟨fun _ => Iff.rfl, fun _ => Iff.rfl, hkeys, fun _ => Iff.rfl⟩⟩
  split at h
  next htwo hthree =>
    cases h
    have hhas : t.Has type address size ↔ (address, size) ∈ t.readWatchpoints.keys := by
      unfold Has
      rw [if_neg htwo, if_pos hthree]
    rw [hhas, ← same_keys_iff t.readWatchpoints set (address, size) type]
    exact ⟨SameSets.read, fun hkeys => ⟨fun _ => Iff.rfl, hkeys, fun _ => Iff.rfl, fun _ => Iff.rfl⟩⟩
  split at h
  next htwo hthree hfour =>
    cases h
    have hhas : t.Has type address size ↔ (address, size) ∈ t.accessWatchpoints.keys := by
      unfold Has
      rw [if_neg htwo, if_neg hthree, if_pos hfour]
    rw [hhas, ← same_keys_iff t.accessWatchpoints set (address, size) type]
    exact ⟨SameSets.access, fun hkeys => ⟨fun _ => Iff.rfl, fun _ => Iff.rfl, fun _ => Iff.rfl, hkeys⟩⟩
  next => cases h

end BreakpointTable

variable {Mem : Type*}

/-- The same registers, memory, breakpoints and watchpoints. -/
structure GdbMachine.Same (m m' : GdbMachine Mem) : Prop where
  registers : m'.registers = m.registers
  memory : m'.memory = m.memory
  sets : BreakpointTable.SameSets m.debugger.table m'.debugger.table

theorem GdbMachine.Same.refl (m : GdbMachine Mem) : m.Same m := ⟨rfl, rfl, .refl _⟩

namespace DebugEngine

variable (e : DebugEngine Mem) (infos : List RegisterInfo) (m : GdbMachine Mem)

/-- The data of a `G` packet is too short, too long or refused at some register, behind a register that the
engine writes with another value than it has. -/
def TornRegisters (encoded : Packet) : Prop :=
  ∃ data, fromHex encoded = some data ∧
    (data.length ≠ (infos.map RegisterInfo.size).sum ∨
      ∃ slot ∈ slots infos data, e.Refuses m.registers slot) ∧
    ∃ slot ∈ e.writtenSlots m.registers infos data, e.Changes m.registers slot

/-- A `Z` packet for what is not set, or a `z` packet for what is, and the engine refuses a hook. -/
def TornBreakpoint (payload : Packet) : Prop :=
  ∃ type address size table, parseBreakpoint payload = some (type, address, size) ∧
    m.debugger.table.change (payload.take 1 = rsp "Z") type address size = some table ∧
    (Debugger.refreshHooks e.acceptsHook { m.debugger with table := table }).2 = false ∧
    ¬(payload.take 1 = rsp "Z" ↔ m.debugger.table.Has type address size)

variable {e infos m}

/-- A `G` packet with hex data succeeds with the loop over the registers, and leaves what that leaves. -/
theorem writeRegisters_data {encoded data : Packet} (hdata : fromHex encoded = some data) :
    ((e.writeRegisters infos m encoded).1 = .ok () ↔ (e.writeSlots m.registers infos data).1 = .ok []) ∧
    (e.writeRegisters infos m encoded).2 =
      { m with registers := (e.writeSlots m.registers infos data).2 } := by
  unfold writeRegisters
  rw [hdata]
  cases hslots : e.writeSlots m.registers infos data with
  | mk result registers =>
    cases result with
    | error err => simp [hslots]
    | ok rest =>
      by_cases hrest : rest = []
      · simp [hslots, hrest]
      · simp [hslots, hrest]

theorem writeRegisters_torn_iff (hnodup : (infos.filterMap RegisterInfo.unicornId).Nodup) (encoded : Packet) :
    ((e.writeRegisters infos m encoded).1 ≠ .ok () → m.Same (e.writeRegisters infos m encoded).2) ↔
      ¬e.TornRegisters infos m encoded := by
  cases hdata : fromHex encoded with
  | none =>
    have hsame : (e.writeRegisters infos m encoded).2 = m := by rw [writeRegisters, hdata]
    refine iff_of_true (fun _ => by rw [hsame]; exact .refl m) ?_
    rintro ⟨data, hsome, _⟩
    rw [hdata] at hsome
    cases hsome
  | some data =>
    obtain ⟨hsuccess, _, hleft⟩ := writeSlots_spec (e := e) hnodup m.registers data
    obtain ⟨hok, hmachine⟩ := @writeRegisters_data _ e infos m _ _ hdata
    have hsame : ∀ registers, m.Same { m with registers := registers } ↔ registers = m.registers :=
      fun registers => ⟨GdbMachine.Same.registers, fun heq => ⟨heq, rfl, .refl _⟩⟩
    have htorn : e.TornRegisters infos m encoded ↔
        ¬(e.writeSlots m.registers infos data).1 = .ok [] ∧
          ¬(e.writeSlots m.registers infos data).2 = m.registers := by
      unfold TornRegisters
      rw [hsuccess, hleft, hdata]
      simp only [Option.some.injEq, exists_eq_left', not_and_or, not_forall, not_not, exists_prop]
    rw [htorn, not_and, not_not, hmachine, hsame, ne_eq, hok]

theorem writeRegister_ok_or_same (payload : Packet) :
    (e.writeRegister infos m payload).1 = .ok () ∨ (e.writeRegister infos m payload).2 = m := by
  unfold writeRegister
  split
  next =>
    split
    next => exact Or.inr rfl
    split
    next => exact Or.inr rfl
    split
    next => exact Or.inr rfl
    split
    next => exact Or.inr rfl
    split
    next => exact Or.inr rfl
    split
    next => exact Or.inr rfl
    next => exact Or.inl rfl
  next => exact Or.inr rfl

theorem writeMemory_ok_or_same (address size : Int) (data : Packet) :
    (e.writeMemory m address size data).1 = .ok () ∨ (e.writeMemory m address size data).2 = m := by
  unfold writeMemory
  split
  next => exact Or.inr rfl
  split
  next => exact Or.inr rfl
  next => exact Or.inl rfl

theorem writeMemoryHex_ok_or_same (payload : Packet) :
    (e.writeMemoryHex m payload).1 = .ok () ∨ (e.writeMemoryHex m payload).2 = m := by
  unfold writeMemoryHex
  split
  next =>
    split
    next => exact writeMemory_ok_or_same ..
    next => exact Or.inr rfl
  next => exact Or.inr rfl

theorem writeMemoryBinary_ok_or_same (payload : Packet) :
    (e.writeMemoryBinary m payload).1 = .ok () ∨ (e.writeMemoryBinary m payload).2 = m := by
  unfold writeMemoryBinary
  split
  next =>
    split
    next => exact writeMemory_ok_or_same ..
    next => exact Or.inr rfl
  next => exact Or.inr rfl

theorem changeBreakpoint_torn_iff (payload : Packet) :
    ((e.changeBreakpoint m payload).1 = rsp "E01" → m.Same (e.changeBreakpoint m payload).2) ↔
      ¬e.TornBreakpoint m payload := by
  unfold changeBreakpoint Debugger.changeBreakpoint TornBreakpoint
  cases hparse : parseBreakpoint payload with
  | none =>
    refine iff_of_true (fun _ => .refl m) ?_
    rintro ⟨type, address, size, table, hsome, _⟩
    cases hsome
  | some parsed =>
    obtain ⟨type, address, size⟩ := parsed
    cases hchange : m.debugger.table.change (payload.take 1 = rsp "Z") type address size with
    | none =>
      refine iff_of_true (fun _ => ?_) ?_
      · simp only [hchange]
        exact .refl m
      · rintro ⟨_, _, _, table, hsome, htable, _⟩
        cases hsome
        rw [hchange] at htable
        cases htable
    | some table =>
      have hsets := BreakpointTable.change_same_iff hchange
      rw [decide_eq_true_eq] at hsets
      have htorn : (∃ type' address' size' table', some (type, address, size) = some (type', address', size') ∧
          m.debugger.table.change (payload.take 1 = rsp "Z") type' address' size' = some table' ∧
          (Debugger.refreshHooks e.acceptsHook { m.debugger with table := table' }).2 = false ∧
          ¬(payload.take 1 = rsp "Z" ↔ m.debugger.table.Has type' address' size')) ↔
          (Debugger.refreshHooks e.acceptsHook { m.debugger with table := table }).2 = false ∧
          ¬BreakpointTable.SameSets m.debugger.table table := by
        rw [hsets]
        constructor
        · rintro ⟨_, _, _, _, hsome, htable, hrefused, hhas⟩
          cases hsome
          rw [hchange] at htable
          cases htable
          exact ⟨hrefused, hhas⟩
        · exact fun h => ⟨type, address, size, table, rfl, hchange, h⟩
      rw [htorn]
      have hdifferent : rsp "OK" ≠ rsp "E01" := by decide
      have hkept : (Debugger.refreshHooks e.acceptsHook { m.debugger with table := table }).1.table = table := rfl
      simp only [hchange]
      cases hrefresh : Debugger.refreshHooks e.acceptsHook { m.debugger with table := table } with
      | mk debugger completed =>
        rw [hrefresh] at hkept
        have htable : debugger.table = table := hkept
        have hsame : m.Same { m with debugger := debugger } ↔
            BreakpointTable.SameSets m.debugger.table table := by
          rw [← htable]
          exact ⟨GdbMachine.Same.sets, fun hsets => ⟨rfl, rfl, hsets⟩⟩
        cases completed with
        | true => simp [hdifferent]
        | false => simp [hsame]

end DebugEngine

end

section

namespace DebugEngine

variable {Mem : Type*} (e : DebugEngine Mem) (infos : List RegisterInfo) (m : GdbMachine Mem) (others : Target)
  (stop : Packet)

/-- The replies to a packet, and the machine after it. -/
def answerCommand (payload : Packet) : List Packet × GdbMachine Mem :=
  ((Gdb.answer (e.target infos m others) stop payload).1, e.afterCommand infos m payload)

def okReply (result : Except PyError Unit) : List Packet := [if result = .ok () then rsp "OK" else rsp "E01"]

variable {e infos m others stop}

theorem answer_tryReply {caught : PyError → Bool} {result : Except PyError Unit} {t : Target} {payload : Packet}
    (h : Gdb.handleCommand t stop payload = Handled.tryReply caught (result.map fun _ => rsp "OK")) :
    (Gdb.answer t stop payload).1 = okReply result := by
  unfold Gdb.answer okReply
  rw [h]
  cases result with
  | ok value => rfl
  | error err =>
    have hmap : (Except.error err : Except PyError Unit).map (fun _ => rsp "OK") = .error err := rfl
    rw [hmap, Handled.tryReply]
    cases caught err with
    | true => simp [Handled.reply]
    | false => simp

theorem okReply_error_iff {result : Except PyError Unit} : okReply result = [rsp "E01"] ↔ result ≠ .ok () := by
  have hdifferent : rsp "OK" ≠ rsp "E01" := by decide
  unfold okReply
  by_cases hok : result = .ok ()
  · simp [hok, hdifferent]
  · simp [hok]

section Commands

variable {payload : Packet}

theorem answer_registers (h : payload.take 1 = rsp "G") :
    e.answerCommand infos m others stop payload =
      (okReply (e.writeRegisters infos m (payload.drop 1)).1, (e.writeRegisters infos m (payload.drop 1)).2) := by
  have hprefix : rsp "G" <+: payload := h ▸ List.take_prefix 1 payload
  have hcommand : Gdb.handleCommand (e.target infos m others) stop payload =
      Handled.tryReply Gdb.anyError ((e.writeRegisters infos m (payload.drop 1)).1.map fun _ => rsp "OK") := by
    unfold Gdb.handleCommand
    rw [if_neg (Gdb.not_command h (by decide)), if_neg (Gdb.ne_command h (by decide)),
      if_neg (Gdb.ne_command h (by decide)), if_neg (Gdb.ne_command h (by decide)), if_pos hprefix]
    rfl
  unfold answerCommand afterCommand
  rw [answer_tryReply hcommand, if_pos hprefix]

theorem answer_register (h : payload.take 1 = rsp "P") :
    e.answerCommand infos m others stop payload =
      (okReply (e.writeRegister infos m (payload.drop 1)).1, (e.writeRegister infos m (payload.drop 1)).2) := by
  have hprefix : rsp "P" <+: payload := h ▸ List.take_prefix 1 payload
  have hcommand : Gdb.handleCommand (e.target infos m others) stop payload =
      Gdb.writeRegister (e.target infos m others) (payload.drop 1) := by
    unfold Gdb.handleCommand
    rw [if_neg (Gdb.not_command h (by decide)), if_neg (Gdb.ne_command h (by decide)),
      if_neg (Gdb.ne_command h (by decide)), if_neg (Gdb.ne_command h (by decide)),
      if_neg (Gdb.not_command h (by decide)), if_neg (Gdb.not_command h (by decide)), if_pos hprefix]
  unfold answerCommand afterCommand
  rw [answer_tryReply hcommand, if_neg (Gdb.not_command h (by decide)), if_pos hprefix]
  rfl

theorem answer_memoryHex (h : payload.take 1 = rsp "M") :
    e.answerCommand infos m others stop payload =
      (okReply (e.writeMemoryHex m (payload.drop 1)).1, (e.writeMemoryHex m (payload.drop 1)).2) := by
  have hprefix : rsp "M" <+: payload := h ▸ List.take_prefix 1 payload
  have hcommand : Gdb.handleCommand (e.target infos m others) stop payload =
      Handled.tryReply Gdb.anyError ((e.writeMemoryHex m (payload.drop 1)).1.map fun _ => rsp "OK") := by
    unfold Gdb.handleCommand
    rw [if_neg (Gdb.not_command h (by decide)), if_neg (Gdb.ne_command h (by decide)),
      if_neg (Gdb.ne_command h (by decide)), if_neg (Gdb.ne_command h (by decide)),
      if_neg (Gdb.not_command h (by decide)), if_neg (Gdb.not_command h (by decide)),
      if_neg (Gdb.not_command h (by decide)), if_neg (Gdb.not_command h (by decide)), if_pos hprefix]
    rfl
  unfold answerCommand afterCommand
  rw [answer_tryReply hcommand, if_neg (Gdb.not_command h (by decide)),
    if_neg (Gdb.not_command h (by decide)), if_pos hprefix]

theorem answer_memoryBinary (h : payload.take 1 = rsp "X") :
    e.answerCommand infos m others stop payload =
      (okReply (e.writeMemoryBinary m (payload.drop 1)).1, (e.writeMemoryBinary m (payload.drop 1)).2) := by
  have hprefix : rsp "X" <+: payload := h ▸ List.take_prefix 1 payload
  have hcommand : Gdb.handleCommand (e.target infos m others) stop payload =
      Handled.tryReply Gdb.anyError ((e.writeMemoryBinary m (payload.drop 1)).1.map fun _ => rsp "OK") := by
    unfold Gdb.handleCommand
    rw [if_neg (Gdb.not_command h (by decide)), if_neg (Gdb.ne_command h (by decide)),
      if_neg (Gdb.ne_command h (by decide)), if_neg (Gdb.ne_command h (by decide)),
      if_neg (Gdb.not_command h (by decide)), if_neg (Gdb.not_command h (by decide)),
      if_neg (Gdb.not_command h (by decide)), if_neg (Gdb.not_command h (by decide)),
      if_neg (Gdb.not_command h (by decide)), if_pos hprefix]
    rfl
  unfold answerCommand afterCommand
  rw [answer_tryReply hcommand, if_neg (Gdb.not_command h (by decide)),
    if_neg (Gdb.not_command h (by decide)), if_neg (Gdb.not_command h (by decide)), if_pos hprefix]

theorem answer_breakpoint (h : payload.take 1 ∈ [rsp "Z", rsp "z"]) :
    e.answerCommand infos m others stop payload =
      ([(e.changeBreakpoint m payload).1], (e.changeBreakpoint m payload).2) := by
  have hnot : ∀ text ∈ [rsp "qSupported", rsp "QStartNoAckMode", rsp "?", rsp "g", rsp "G", rsp "p", rsp "P",
      rsp "m", rsp "M", rsp "X"], ¬text <+: payload := by
    intro text htext
    have hno : ∀ start ∈ [rsp "Z", rsp "z"], ∀ text ∈ [rsp "qSupported", rsp "QStartNoAckMode", rsp "?",
        rsp "g", rsp "G", rsp "p", rsp "P", rsp "m", rsp "M", rsp "X"], ¬text.take 1 <+: start := by decide
    exact Gdb.not_command rfl (hno _ h text htext)
  have hne : ∀ text ∈ [rsp "qSupported", rsp "QStartNoAckMode", rsp "?", rsp "g", rsp "G", rsp "p", rsp "P",
      rsp "m", rsp "M", rsp "X"], payload ≠ text :=
    fun text htext heq => hnot text htext (heq ▸ List.prefix_refl _)
  have hcommand : Gdb.handleCommand (e.target infos m others) stop payload =
      Handled.reply (e.changeBreakpoint m payload).1 := by
    unfold Gdb.handleCommand
    rw [if_neg (hnot _ (by simp)), if_neg (hne _ (by simp)), if_neg (hne _ (by simp)), if_neg (hne _ (by simp)),
      if_neg (hnot _ (by simp)), if_neg (hnot _ (by simp)), if_neg (hnot _ (by simp)),
      if_neg (hnot _ (by simp)), if_neg (hnot _ (by simp)), if_neg (hnot _ (by simp)), if_pos h]
    rfl
  have hletter : payload.take 1 = rsp "Z" ∨ payload.take 1 = rsp "z" := by
    simpa only [List.mem_cons, List.not_mem_nil, or_false] using h
  unfold answerCommand afterCommand Gdb.answer
  rw [hcommand, if_neg (hnot _ (by simp)), if_neg (hnot _ (by simp)), if_neg (hnot _ (by simp)),
    if_neg (hnot _ (by simp)), if_pos hletter]
  rfl

end Commands

/-- The machine on which a packet gets `E01` and yet changes something. -/
def Torn (e : DebugEngine Mem) (infos : List RegisterInfo) (m : GdbMachine Mem) (payload : Packet) : Prop :=
  (payload.take 1 = rsp "G" ∧ e.TornRegisters infos m (payload.drop 1)) ∨
    (payload.take 1 ∈ [rsp "Z", rsp "z"] ∧ e.TornBreakpoint m payload)

theorem makeRegisters_nodup (amd64 : Bool) :
    ((makeRegisters amd64).filterMap RegisterInfo.unicornId).Nodup := by
  revert amd64
  decide

/-- A packet that gets `E01` changes nothing, unless it is one of two kinds. -/
theorem error_unchanged_iff (e : DebugEngine Mem) (amd64 : Bool) (m : GdbMachine Mem) (others : Target)
    (stop payload : Packet)
    (h : payload.take 1 ∈ [rsp "G", rsp "P", rsp "M", rsp "X", rsp "Z", rsp "z"]) :
    ((e.answerCommand (makeRegisters amd64) m others stop payload).1 = [rsp "E01"] →
      m.Same (e.answerCommand (makeRegisters amd64) m others stop payload).2) ↔
      ¬Torn e (makeRegisters amd64) m payload := by
  have hletters : ∀ a ∈ [rsp "P", rsp "M", rsp "X"], a ≠ rsp "G" ∧ a ∉ [rsp "Z", rsp "z"] := by decide
  have hnever : payload.take 1 ∈ [rsp "P", rsp "M", rsp "X"] → ¬Torn e (makeRegisters amd64) m payload := by
    rintro hin (⟨hregisters, _⟩ | ⟨hbreakpoint, _⟩)
    · exact (hletters _ hin).1 hregisters
    · exact (hletters _ hin).2 hbreakpoint
  have hkept : ∀ {result : Except PyError Unit} {after : GdbMachine Mem}, result = .ok () ∨ after = m →
      okReply result = [rsp "E01"] → m.Same after := by
    intro result after hor herror
    cases hor with
    | inl hok => exact absurd hok (okReply_error_iff.mp herror)
    | inr hsame => exact hsame ▸ .refl m
  simp only [List.mem_cons, List.not_mem_nil, or_false] at h
  obtain h | h | h | h | h := h
  · have htorn : Torn e (makeRegisters amd64) m payload ↔
        e.TornRegisters (makeRegisters amd64) m (payload.drop 1) := by
      have hno : payload.take 1 ∉ [rsp "Z", rsp "z"] := by
        rw [h]
        decide
      unfold Torn
      rw [and_iff_right h]
      exact or_iff_left fun hz => hno hz.1
    rw [answer_registers h, okReply_error_iff, htorn]
    exact writeRegisters_torn_iff (makeRegisters_nodup amd64) _
  · rw [answer_register h]
    exact iff_of_true (hkept (writeRegister_ok_or_same _)) (hnever (by simp [h]))
  · rw [answer_memoryHex h]
    exact iff_of_true (hkept (writeMemoryHex_ok_or_same _)) (hnever (by simp [h]))
  · rw [answer_memoryBinary h]
    exact iff_of_true (hkept (writeMemoryBinary_ok_or_same _)) (hnever (by simp [h]))
  · have hin : payload.take 1 ∈ [rsp "Z", rsp "z"] := by simp [h]
    have htorn : Torn e (makeRegisters amd64) m payload ↔ e.TornBreakpoint m payload := by
      have hno : payload.take 1 ≠ rsp "G" := by
        intro hg
        have hz : ∀ a ∈ [rsp "Z", rsp "z"], a ≠ rsp "G" := by decide
        exact hz _ hin hg
      unfold Torn
      rw [and_iff_right hin]
      exact or_iff_right fun hg => hno hg.1
    rw [answer_breakpoint hin, htorn, List.cons.injEq, and_iff_left rfl]
    exact changeBreakpoint_torn_iff payload

/-- An engine that takes each write and each hook. -/
def takesAll : DebugEngine Unit := ⟨fun _ _ new => some new, fun _ _ _ => some (), fun _ _ => true⟩

def zeroMachine : GdbMachine Unit := ⟨fun _ => .int 0, (), ⟨.empty, ⟨false, false, false, .empty⟩⟩⟩

def noDocuments : Target := xferTarget ⟨[], [], [], []⟩

theorem error_unchanged_memory :
    ((takesAll.answerCommand (makeRegisters true) zeroMachine noDocuments [] (rsp "M10,2:00")).1 = [rsp "E01"] →
      zeroMachine.Same
        (takesAll.answerCommand (makeRegisters true) zeroMachine noDocuments [] (rsp "M10,2:00")).2) ↔
      ¬Torn takesAll (makeRegisters true) zeroMachine (rsp "M10,2:00") :=
  error_unchanged_iff takesAll true zeroMachine noDocuments [] (rsp "M10,2:00") (by decide)

/-- The answer to a `G` packet that ends behind the first register. -/
theorem answer_short (e : DebugEngine Unit) (infos : List RegisterInfo) (m : GdbMachine Unit) :
    (e.answerCommand infos m noDocuments [] (rsp "G01000000")).1 =
      okReply (e.writeRegisters infos m (rsp "01000000")).1 ∧
    (e.answerCommand infos m noDocuments [] (rsp "G01000000")).2 =
      (e.writeRegisters infos m (rsp "01000000")).2 := by
  have hletter : (rsp "G01000000").take 1 = rsp "G" := by decide
  have hrest : (rsp "G01000000").drop 1 = rsp "01000000" := by decide
  rw [answer_registers hletter, hrest]
  simp only [and_self]

theorem short_error :
    okReply (takesAll.writeRegisters (makeRegisters false) zeroMachine (rsp "01000000")).1 = [rsp "E01"] := by
  decide +kernel

theorem short_changes : (takesAll.writeRegisters (makeRegisters false) zeroMachine
    (rsp "01000000")).2.registers "EAX" ≠ zeroMachine.registers "EAX" := by
  decide +kernel

/-- A `G` packet that gets `E01` can change a register. -/
theorem error_not_unchanged :
    ¬∀ (e : DebugEngine Unit) (amd64 : Bool) (m : GdbMachine Unit) (others : Target) (stop payload : Packet),
      payload.take 1 ∈ [rsp "G", rsp "P", rsp "M", rsp "X", rsp "Z", rsp "z"] →
      (e.answerCommand (makeRegisters amd64) m others stop payload).1 = [rsp "E01"] →
      m.Same (e.answerCommand (makeRegisters amd64) m others stop payload).2 := by
  intro h
  obtain ⟨hreplies, hafter⟩ := answer_short takesAll (makeRegisters false) zeroMachine
  have hsame := h takesAll false zeroMachine noDocuments [] (rsp "G01000000") (by decide)
  rw [hreplies, hafter] at hsame
  have hregisters := (hsame short_error).registers
  have hne := short_changes
  rw [hregisters] at hne
  exact hne rfl

end DebugEngine

end

end Speakeasy
