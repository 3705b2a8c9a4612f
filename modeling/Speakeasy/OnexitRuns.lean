import Speakeasy.OnexitSteps

namespace Speakeasy

section

/-- The functions that are registered and not called yet, the last one first, when each call is of the last one. -/
def pendingAfter : List ExitEvent → Option (List Nat)
  | [] => some []
  | .registered f :: history => (pendingAfter history).map (f :: ·)
  | .called f :: history =>
    match pendingAfter history with
    | some (f' :: pending) => if f' = f then some pending else none
    | _ => none
  | .finished :: history =>
    match pendingAfter history with
    | some [] => some []
    | _ => none

example : pendingAfter [.called 6, .registered 6, .registered 5] = some [5] := by
  rw [pendingAfter]
  rfl

def registeredIn (history : List ExitEvent) : List Nat :=
  history.filterMap fun
    | .registered f => some f
    | _ => none

def calledIn (history : List ExitEvent) : List Nat :=
  history.filterMap fun
    | .called f => some f
    | _ => none

/-- What the callers keep to: the functions are not null, an execution runs alone, and guest code does not
write the table or its array. -/
def ExitMachine.Allowed (env : OnexitEnv) (m : ExitMachine) : ExitOp → Prop
  | .initTable => True
  | .register function array =>
    function ≠ 0 ∧ function < 256 ^ env.ptrSize ∧ FreshBlock env m.guest array (growSize env m.guest)
  | .execute => m.frame = none
  | .callbackReturn => m.frame ≠ none
  | .guest memory => (∀ x, env.table ≤ x → x < env.table + 3 * env.ptrSize → memory x = m.guest.memory x) ∧
    ∀ block ∈ m.guest.blocks, ∀ x, block.1 ≤ x → x < block.1 + block.2 → memory x = m.guest.memory x

/-- The states and histories that operations reach. The last event is the first one of the history. -/
inductive ExitRun (env : OnexitEnv) (start : ExitMachine) : ExitMachine → List ExitEvent → Prop
  | init : ExitRun env start start []
  | step {m m' history op events} : ExitRun env start m history → m.Allowed env op →
    m.step env op = some (m', events) → ExitRun env start m' (events ++ history)

/-- The last function that is left is called. Without one the table is empty. -/
def ExitTurn (env : OnexitEnv) (m' : ExitMachine) (events : List ExitEvent) : List Nat → Prop
  | [] => events = [.finished] ∧ m'.frame = none ∧ ExitGuest.noArray env (m'.guest.readOnexitTable env).1
  | f :: _ => events = [.called f] ∧ m'.frame ≠ none

/-- What an operation does in a table with some functions left. -/
def ExitStep (env : OnexitEnv) (pending : List Nat) (m' : ExitMachine) (events : List ExitEvent) : ExitOp → Prop
  | .initTable => events = []
  | .register function _ => events = [.registered function]
  | .execute => ExitTurn env m' events pending
  | .callbackReturn => ExitTurn env m' events pending
  | .guest _ => events = []

/-- Each registered function is called once or is left, and every operation goes on. -/
def ExitLaw (env : OnexitEnv) (m : ExitMachine) (history : List ExitEvent) : Prop :=
  ∃ pending, pendingAfter history = some pending ∧
    (registeredIn history).Perm (calledIn history ++ pending) ∧
    ∀ op, m.Allowed env op → ∃ m' events, m.step env op = some (m', events) ∧ ExitStep env pending m' events op

/-- While a function runs: if nothing was registered since, the entries from that function on are null. -/
def FrameInv (env : OnexitEnv) (frame : ExitFrame) (entries : List Nat) (first : Nat) : Prop :=
  ∃ count, frame.saved.2 = frame.saved.1 + count * env.ptrSize ∧ count ≤ entries.length ∧
    (count = entries.length → frame.saved.1 = first ∧ frame.first = first ∧
      ∃ j ≤ entries.length, frame.last = first + j * env.ptrSize ∧ NullFrom entries j)

def MachineInv (env : OnexitEnv) (m : ExitMachine) (pending : List Nat) : Prop :=
  (m.frame = none ∧ TableState env m.guest pending) ∨
    ∃ frame entries first capacity, m.frame = some frame ∧ TableInv env m.guest entries first capacity ∧
      pending = pendingEntries entries ∧ FrameInv env frame entries first

/-- The machine after an operation, with the functions that are then left. -/
def After (env : OnexitEnv) (m' : ExitMachine) (pending : List Nat) (events history : List ExitEvent) : Prop :=
  pendingAfter history = some pending → ∃ pending', pendingAfter (events ++ history) = some pending' ∧
    MachineInv env m' pending'

variable {env : OnexitEnv} {m : ExitMachine} {g : ExitGuest} {entries pending : List Nat} {first capacity : Nat}

theorem pendingAfter_perm {history : List ExitEvent} {pending : List Nat} (h : pendingAfter history = some pending) :
    (registeredIn history).Perm (calledIn history ++ pending) := by
  induction history generalizing pending with
  | nil =>
    rw [← Option.some.inj h]
    exact List.Perm.refl _
  | cons event history ih =>
    cases event with
    | registered f =>
      obtain ⟨before, hbefore, heq⟩ := Option.map_eq_some_iff.mp h
      rw [← heq]
      exact ((ih hbefore).cons f).trans List.perm_middle.symm
    | called f =>
      rw [pendingAfter] at h
      cases hbefore : pendingAfter history with
      | none =>
        rw [hbefore] at h
        cases h
      | some before =>
        rw [hbefore] at h
        cases before with
        | nil => cases h
        | cons f' rest =>
          by_cases hf : f' = f
          · simp only [if_pos hf] at h
            rw [← Option.some.inj h]
            rw [hf] at hbefore
            exact (ih hbefore).trans List.perm_middle
          · simp only [if_neg hf] at h
            cases h
    | finished =>
      rw [pendingAfter] at h
      cases hbefore : pendingAfter history with
      | none =>
        rw [hbefore] at h
        cases h
      | some before =>
        rw [hbefore] at h
        cases before with
        | nil =>
          rw [← Option.some.inj h]
          exact ih hbefore
        | cons f' rest => cases h

/-- A turn from a position that only null entries follow. -/
theorem turn_spec (hw : 0 < env.ptrSize) (h : TableInv env g entries first capacity) {j : Nat}
    (hj : j ≤ entries.length) (hnull : NullFrom entries j) :
    ∃ m' event, g.nextCall env first (first + j * env.ptrSize) (first, first + entries.length * env.ptrSize) =
        some (m', event) ∧ ExitTurn env m' [event] (pendingEntries entries) ∧
      ∀ history, After env m' (pendingEntries entries) [event] history := by
  cases nextCall_spec hw h hj hnull (first, first + entries.length * env.ptrSize) with
  | inl hend =>
    obtain ⟨hpending, g', hres, hpointers⟩ := hend
    have hempty : ExitGuest.noArray env (g'.readOnexitTable env).1 := Or.inl (by rw [hpointers])
    refine ⟨⟨g', none⟩, .finished, hres, ?_, fun history hhistory => ⟨[], ?_, Or.inl ⟨rfl, Or.inl ⟨hempty, rfl⟩⟩⟩⟩
    · rw [hpending]
      exact ⟨rfl, rfl, hempty⟩
    · show pendingAfter (.finished :: history) = some []
      rw [pendingAfter, hhistory, hpending]
  | inr hcall =>
    obtain ⟨g', i, f, hres, hi, hinv, hnull', hpending⟩ := hcall
    refine ⟨_, .called f, hres, ?_, fun history hhistory => ⟨pendingEntries (entries.set i 0), ?_,
      Or.inr ⟨_, entries.set i 0, first, capacity, rfl, hinv, rfl, entries.length, rfl, ?_, fun _ => ⟨rfl, rfl, i, ?_, rfl,
        hnull'⟩⟩⟩⟩
    · rw [hpending]
      exact ⟨rfl, Option.some_ne_none _⟩
    · show pendingAfter (.called f :: history) = some _
      rw [pendingAfter, hhistory, hpending]
      exact if_pos rfl
    · rw [List.length_set]
    · rw [List.length_set]
      omega

theorem nullFrom_length (entries : List Nat) : NullFrom entries entries.length := by
  intro e he
  rw [List.drop_length] at he
  cases he

theorem MachineInv.register (hw : 0 < env.ptrSize) (h : MachineInv env m pending) {function array : Nat}
    (hallowed : m.Allowed env (.register function array)) : ∃ m', m.step env (.register function array) =
      some (m', [.registered function]) ∧ MachineInv env m' (function :: pending) := by
  obtain ⟨hnull, hf, hfresh⟩ := hallowed
  cases h with
  | inl hidle =>
    obtain ⟨g', entries, first, capacity, hres, hinv, hpending⟩ := register_state hw hidle.2 hnull hf hfresh
    refine ⟨⟨g', m.frame⟩, ?_, Or.inl ⟨hidle.1, Or.inr ⟨entries, first, capacity, hinv, hpending.symm⟩⟩⟩
    show (m.guest.registerOnexitFunction env function array).map _ = _
    rw [hres]
    rfl
  | inr hrunning =>
    obtain ⟨frame, entries, first, capacity, hframe, hinv, hpending, count, hsaved, hcount, _⟩ := hrunning
    obtain ⟨g', first', capacity', hres, hinv'⟩ := register_table hw hinv hf hfresh
    have hlen : (entries ++ [function]).length = entries.length + 1 := by
      rw [List.length_append, List.length_singleton]
    refine ⟨⟨g', m.frame⟩, ?_, Or.inr ⟨frame, entries ++ [function], first', capacity', hframe, hinv', ?_, count, hsaved,
      by omega, fun heq => by omega⟩⟩
    · show (m.guest.registerOnexitFunction env function array).map _ = _
      rw [hres]
      rfl
    · rw [hpending]
      exact (pendingEntries_append entries hnull).symm

theorem MachineInv.initTable (hw : 0 < env.ptrSize) (h : MachineInv env m pending) :
    ∃ m', m.step env .initTable = some (m', []) ∧ MachineInv env m' pending := by
  show ∃ m', (m.guest.initializeOnexitTable env).map _ = some (m', []) ∧ _
  unfold ExitGuest.initializeOnexitTable
  by_cases hzero : (m.guest.readOnexitTable env).1 = 0
  · have hpow : 0 < 256 ^ env.ptrSize := Nat.pow_pos (by decide)
    obtain ⟨g', hres, _, hpointers, _⟩ := writeOnexitTable_spec env m.guest hpow hpow hpow
    rw [if_pos hzero, hres]
    refine ⟨⟨g', m.frame⟩, rfl, ?_⟩
    cases h with
    | inl hidle =>
      cases hidle.2 with
      | inl hempty => exact Or.inl ⟨hidle.1, Or.inl ⟨Or.inl (by rw [hpointers]), hempty.2⟩⟩
      | inr hsome =>
        obtain ⟨entries, first, capacity, hinv, _⟩ := hsome
        rw [hinv.pointers] at hzero
        exact absurd (Or.inl hzero) (hinv.hasArray hw)
    | inr hrunning =>
      obtain ⟨frame, entries, first, capacity, _, hinv, _⟩ := hrunning
      rw [hinv.pointers] at hzero
      exact absurd (Or.inl hzero) (hinv.hasArray hw)
  · rw [if_neg hzero]
    exact ⟨m, rfl, h⟩

theorem MachineInv.guest (h : MachineInv env m pending) {memory : ByteMemory}
    (hallowed : m.Allowed env (.guest memory)) : MachineInv env ⟨⟨memory, m.guest.blocks⟩, m.frame⟩ pending := by
  obtain ⟨htable, hblocks⟩ := hallowed
  have hpointers : ExitGuest.readOnexitTable env ⟨memory, m.guest.blocks⟩ = m.guest.readOnexitTable env :=
    readOnexitTable_congr htable
  have hkeep : ∀ {entries first capacity}, TableInv env m.guest entries first capacity →
      TableInv env ⟨memory, m.guest.blocks⟩ entries first capacity := fun hinv =>
    ⟨hinv.toArrayInv.congr hinv.block (hblocks _ hinv.block), hpointers.trans hinv.pointers⟩
  cases h with
  | inl hidle =>
    refine Or.inl ⟨hidle.1, ?_⟩
    cases hidle.2 with
    | inl hempty => exact Or.inl ⟨by rw [hpointers]; exact hempty.1, hempty.2⟩
    | inr hsome =>
      obtain ⟨entries, first, capacity, hinv, hpending⟩ := hsome
      exact Or.inr ⟨entries, first, capacity, hkeep hinv, hpending⟩
  | inr hrunning =>
    obtain ⟨frame, entries, first, capacity, hframe, hinv, hpending, hframeinv⟩ := hrunning
    exact Or.inr ⟨frame, entries, first, capacity, hframe, hkeep hinv, hpending, hframeinv⟩

end

section

variable {env : OnexitEnv} {start m m' : ExitMachine} {entries pending : List Nat} {first capacity : Nat}
  {history events : List ExitEvent}

theorem MachineInv.execute (hw : 0 < env.ptrSize) (h : MachineInv env m pending) (hidle : m.frame = none) :
    ∃ m' event, m.step env .execute = some (m', [event]) ∧ ExitTurn env m' [event] pending ∧
      ∀ history, After env m' pending [event] history := by
  have hstep : m.step env .execute = (m.guest.executeOnexitTable env).map fun r => (r.1, [r.2]) := by
    unfold ExitMachine.step
    simp only [hidle]
  rw [hstep]
  unfold ExitGuest.executeOnexitTable
  cases h with
  | inl hstate =>
    cases hstate.2 with
    | inl hempty =>
      simp only [if_pos hempty.1]
      refine ⟨⟨m.guest, none⟩, .finished, rfl, ?_, fun history hhistory => ⟨[], ?_, Or.inl ⟨rfl, Or.inl ⟨hempty.1, rfl⟩⟩⟩⟩
      · rw [hempty.2]
        exact ⟨rfl, rfl, hempty.1⟩
      · show pendingAfter (.finished :: history) = some []
        rw [pendingAfter, hhistory, hempty.2]
    | inr hsome =>
      obtain ⟨entries, first, capacity, hinv, rfl⟩ := hsome
      obtain ⟨m', event, hres, hturn, hafter⟩ := turn_spec hw hinv (Nat.le_refl _) (nullFrom_length entries)
      simp only [hinv.pointers, if_neg (hinv.hasArray hw), hres]
      exact ⟨m', event, rfl, hturn, hafter⟩
  | inr hrunning =>
    obtain ⟨frame, _, _, _, hframe, _⟩ := hrunning
    rw [hidle] at hframe
    cases hframe

theorem MachineInv.callbackReturn (hw : 0 < env.ptrSize) (h : MachineInv env m pending) (hrunning : m.frame ≠ none) :
    ∃ m' event, m.step env .callbackReturn = some (m', [event]) ∧ ExitTurn env m' [event] pending ∧
      ∀ history, After env m' pending [event] history := by
  cases h with
  | inl hstate => exact absurd hstate.1 hrunning
  | inr hframed =>
    obtain ⟨frame, entries, first, capacity, hframe, hinv, rfl, count, hsaved, hcount, hsame⟩ := hframed
    have hstep : m.step env .callbackReturn = (m.guest.resumeOnexit env frame).map fun r => (r.1, [r.2]) := by
      unfold ExitMachine.step
      simp only [hframe]
    rw [hstep]
    unfold ExitGuest.resumeOnexit
    simp only [hinv.pointers]
    by_cases hchanged : (first, first + entries.length * env.ptrSize) ≠ frame.saved
    · rw [if_pos hchanged]
      obtain ⟨m', event, hres, hturn, hafter⟩ := turn_spec hw hinv (Nat.le_refl _) (nullFrom_length entries)
      rw [hres]
      exact ⟨m', event, rfl, hturn, hafter⟩
    · -- nothing was registered: the saved pointers have the same number of entries
      have heq : (first, first + entries.length * env.ptrSize) = frame.saved := not_not.mp hchanged
      have hlen : count = entries.length := by
        rw [← heq] at hsaved
        exact (Nat.eq_of_mul_eq_mul_right hw (Nat.add_left_cancel hsaved)).symm
      obtain ⟨_, hfirst, j, hj, hlast, hnull⟩ := hsame hlen
      rw [if_neg hchanged, hfirst, hlast, ← heq]
      obtain ⟨m', event, hres, hturn, hafter⟩ := turn_spec hw hinv hj hnull
      rw [hres]
      exact ⟨m', event, rfl, hturn, hafter⟩

/-- Every operation goes on, and keeps the invariant. -/
theorem MachineInv.step (hw : 0 < env.ptrSize) (h : MachineInv env m pending) {op : ExitOp}
    (hallowed : m.Allowed env op) : ∃ m' events, m.step env op = some (m', events) ∧ ExitStep env pending m' events op ∧
      ∀ history, After env m' pending events history := by
  cases op with
  | initTable =>
    obtain ⟨m', hres, hinv⟩ := h.initTable hw
    exact ⟨m', [], hres, rfl, fun history hhistory => ⟨pending, hhistory, hinv⟩⟩
  | register function array =>
    obtain ⟨m', hres, hinv⟩ := h.register hw hallowed
    refine ⟨m', [.registered function], hres, rfl, fun history hhistory => ⟨function :: pending, ?_, hinv⟩⟩
    show (pendingAfter history).map (function :: ·) = _
    rw [hhistory]
    rfl
  | execute =>
    obtain ⟨m', event, hres, hturn, hafter⟩ := h.execute hw hallowed
    exact ⟨m', [event], hres, hturn, hafter⟩
  | callbackReturn =>
    obtain ⟨m', event, hres, hturn, hafter⟩ := h.callbackReturn hw hallowed
    exact ⟨m', [event], hres, hturn, hafter⟩
  | guest memory => exact ⟨_, [], rfl, rfl, fun history hhistory => ⟨pending, hhistory, h.guest hallowed⟩⟩

theorem ExitRun.inv (hw : 0 < env.ptrSize) (hidle : start.frame = none)
    (hempty : ExitGuest.noArray env (start.guest.readOnexitTable env).1) (hrun : ExitRun env start m history) :
    ∃ pending, pendingAfter history = some pending ∧ MachineInv env m pending := by
  induction hrun with
  | init => exact ⟨[], rfl, Or.inl ⟨hidle, Or.inl ⟨hempty, rfl⟩⟩⟩
  | step _ hallowed hres ih =>
    obtain ⟨pending, hpending, hinv⟩ := ih
    obtain ⟨m', events, hstep, _, hafter⟩ := hinv.step hw hallowed
    rw [hres] at hstep
    obtain ⟨rfl, rfl⟩ := Prod.mk.inj (Option.some.inj hstep)
    exact hafter _ hpending

/-- In every run from a table without an array, each function that is registered is called once, the last
one that is left first, until none is left and the table is empty again. -/
theorem exitRun_law (hw : 0 < env.ptrSize) (hidle : start.frame = none)
    (hempty : ExitGuest.noArray env (start.guest.readOnexitTable env).1) (hrun : ExitRun env start m history) :
    ExitLaw env m history := by
  obtain ⟨pending, hpending, hinv⟩ := hrun.inv hw hidle hempty
  refine ⟨pending, hpending, pendingAfter_perm hpending, fun op hallowed => ?_⟩
  obtain ⟨m', events, hres, hstep, _⟩ := hinv.step hw hallowed
  exact ⟨m', events, hres, hstep⟩

def exitEnv : OnexitEnv := ⟨4, 0x100⟩

def exitStart : ExitMachine := ⟨⟨fun _ => 0, []⟩, none⟩

/-- A function that registers another one while it runs. -/
theorem exitRun_law_nested : ∃ m, ExitLaw exitEnv m [.called 6, .registered 6, .called 5, .registered 5] := by
  have hfresh : FreshBlock exitEnv exitStart.guest 0x1000 (growSize exitEnv exitStart.guest) :=
    ⟨by decide, by decide, Or.inl (by decide), fun block hblock => by cases hblock⟩
  have hone := @ExitRun.step exitEnv exitStart _ _ _ (.register 5 0x1000) _ .init ⟨by decide, by decide, hfresh⟩ rfl
  have htwo := @ExitRun.step exitEnv exitStart _ _ _ .execute _ hone rfl rfl
  have hthree := @ExitRun.step exitEnv exitStart _ _ _ (.register 6 0x2000) _ htwo
    ⟨by decide, by decide, by decide, by decide, Or.inl (by decide), fun block hblock => by
      rw [List.mem_singleton.mp hblock]
      exact Or.inl (by decide)⟩ rfl
  have hfour := @ExitRun.step exitEnv exitStart _ _ _ .callbackReturn _ hthree (Option.some_ne_none _) rfl
  exact ⟨_, exitRun_law (by decide) rfl (Or.inl rfl) hfour⟩

end

end Speakeasy
