import Mathlib.Data.List.Nodup
import Speakeasy.ScopeTables

namespace Speakeasy

/-- The ranges of a scope have its handler and its jump target. -/
def ScopeEntry.id (entry : ScopeEntry) : Nat × Nat := (entry.handler, entry.target)

def InScope (scopes : List ScopeEntry) (id : Nat × Nat) (pc : Int) : Prop :=
  ∃ entry ∈ scopes, entry.id = id ∧ entry.contains pc

/-- A scope around a point of an earlier entry is around the whole scope of that entry. The ranges of a scope
are apart. -/
structure ProperlyNested (scopes : List ScopeEntry) : Prop where
  nested : scopes.Pairwise fun a b => ∀ x, a.contains x → InScope scopes b.id x →
    ∀ y, InScope scopes a.id y → InScope scopes b.id y
  apart : scopes.Pairwise fun a b => a.id = b.id → ∀ x, a.contains x → ¬b.contains x

/-- The scopes with `P` around `pc`, each once. -/
structure InnermostFirst (scopes : List ScopeEntry) (P : Nat × Nat → Prop) (pc : Int) (ids : List (Nat × Nat)) :
    Prop where
  exact : ∀ id, id ∈ ids ↔ P id ∧ InScope scopes id pc
  once : ids.Nodup
  inner : ids.Pairwise fun a b => ∀ x, InScope scopes a x → InScope scopes b x

section

variable {scopes : List ScopeEntry}

theorem inScope_of_mem {entry : ScopeEntry} {pc : Int} (hmem : entry ∈ scopes) (h : entry.contains pc) :
    InScope scopes entry.id pc :=
  ⟨entry, hmem, rfl, h⟩

/-- The entries of `scopes` around `pc` with `P`. -/
def around (P : Nat × Nat → Prop) [DecidablePred P] (pc : Int) (entries : List ScopeEntry) : List (Nat × Nat) :=
  (entries.filter fun entry => P entry.id ∧ entry.contains pc).map ScopeEntry.id

theorem around_cons_of {P : Nat × Nat → Prop} [DecidablePred P] {pc : Int} {entry : ScopeEntry}
    {entries : List ScopeEntry} (h : P entry.id ∧ entry.contains pc) :
    around P pc (entry :: entries) = entry.id :: around P pc entries := by
  unfold around
  rw [List.filter_cons_of_pos (by simpa using h), List.map_cons]

theorem around_cons_of_not {P : Nat × Nat → Prop} [DecidablePred P] {pc : Int} {entry : ScopeEntry}
    {entries : List ScopeEntry} (h : ¬(P entry.id ∧ entry.contains pc)) :
    around P pc (entry :: entries) = around P pc entries := by
  unfold around
  rw [List.filter_cons_of_neg (by simpa using h)]

theorem mem_around {P : Nat × Nat → Prop} [DecidablePred P] {pc : Int} {entries : List ScopeEntry}
    {id : Nat × Nat} : id ∈ around P pc entries ↔ P id ∧ InScope entries id pc := by
  unfold around
  constructor
  · intro h
    obtain ⟨entry, hentry, rfl⟩ := List.mem_map.mp h
    obtain ⟨hmem, hP⟩ := List.mem_filter.mp hentry
    have hP := of_decide_eq_true hP
    exact ⟨hP.1, inScope_of_mem hmem hP.2⟩
  · rintro ⟨hP, entry, hmem, rfl, hcontains⟩
    exact List.mem_map_of_mem (List.mem_filter.mpr ⟨hmem, decide_eq_true ⟨hP, hcontains⟩⟩)

/-- The entries around a point are the scopes around it, the inner scopes first. -/
theorem ProperlyNested.around (h : ProperlyNested scopes) (P : Nat × Nat → Prop) [DecidablePred P] (pc : Int) :
    InnermostFirst scopes P pc (around P pc scopes) := by
  have hsub := List.filter_sublist (p := fun entry => decide (P entry.id ∧ entry.contains pc)) (l := scopes)
  refine ⟨fun id => mem_around, ?_, ?_⟩
  · apply List.pairwise_map.mpr
    apply (h.apart.sublist hsub).imp_of_mem
    intro a b ha hb hapart hid
    have hacontains := (of_decide_eq_true (List.mem_filter.mp ha).2).2
    have hbcontains := (of_decide_eq_true (List.mem_filter.mp hb).2).2
    exact hapart hid pc hacontains hbcontains
  · apply List.pairwise_map.mpr
    apply (h.nested.sublist hsub).imp_of_mem
    intro a b ha hb hnested
    have hacontains := (of_decide_eq_true (List.mem_filter.mp ha).2).2
    obtain ⟨hbmem, hb⟩ := List.mem_filter.mp hb
    exact hnested pc hacontains (inScope_of_mem hbmem (of_decide_eq_true hb).2)

end

/-! The search for a filter that takes the exception. -/

/-- How filters are consulted with the answers of the guest. The filter 1 is not called, and stands for a
verdict of 1. -/
inductive Consults (call : Nat × Nat → ScopeCall) (unwind : Nat × Nat → ScopeResult) :
    List (Nat × Nat) → List Nat → List ScopeCall → Option (ScopeResult × List Nat) → Prop
  | exhausted (answers) : Consults call unwind [] answers [] (some (.disposition .continueSearch, answers))
  | always {id ids} (answers) (h : id.1 = 1) : Consults call unwind (id :: ids) answers [] (some (unwind id, answers))
  | waiting {id ids} (h : id.1 ≠ 1) : Consults call unwind (id :: ids) [] [call id] none
  | zero {id ids answer answers calls result} (h : id.1 ≠ 1) (hzero : asLong answer = 0)
      (hrest : Consults call unwind ids answers calls result) :
      Consults call unwind (id :: ids) (answer :: answers) (call id :: calls) result
  | negative {id ids answer answers} (h : id.1 ≠ 1) (hneg : asLong answer < 0) :
      Consults call unwind (id :: ids) (answer :: answers) [call id]
        (some (.disposition .continueExecution, answers))
  | positive {id ids answer answers} (h : id.1 ≠ 1) (hpos : 0 < asLong answer) :
      Consults call unwind (id :: ids) (answer :: answers) [call id] (some (unwind id, answers))

namespace DispatcherContext

variable (dc : DispatcherContext) (establisher pointers code : Nat)

def filterCall (id : Nat × Nat) : ScopeCall := ⟨dc.imageBase + id.1, [pointers, establisher], dc.scopeIndex⟩

def unwindResult (id : Nat × Nat) : ScopeResult := .unwind establisher (dc.imageBase + id.2) code

theorem searchScopes_consults (entries : List ScopeEntry) (answers : List Nat) :
    Consults (dc.filterCall establisher pointers) (dc.unwindResult establisher code)
      (around (·.2 ≠ 0) dc.pc entries) answers
      ((dc.searchScopes establisher pointers code entries).run answers).1
      ((dc.searchScopes establisher pointers code entries).run answers).2 := by
  induction entries generalizing answers with
  | nil =>
    rw [searchScopes, Generator.run_ret]
    exact Consults.exhausted answers
  | cons entry entries ih =>
    by_cases hentry : entry.contains dc.pc ∧ entry.target ≠ 0
    · rw [around_cons_of ⟨hentry.2, hentry.1⟩]
      unfold searchScopes
      rw [if_pos hentry]
      by_cases halways : entry.handler = 1
      · simp only [if_pos halways, Generator.run_ret]
        exact Consults.always answers halways
      · simp only [if_neg halways]
        cases answers with
        | nil => exact Consults.waiting halways
        | cons answer answers =>
          rw [Generator.run_yield_cons]
          by_cases hneg : asLong answer < 0
          · simp only [if_pos hneg, Generator.run_ret]
            exact Consults.negative halways hneg
          · by_cases hpos : 0 < asLong answer
            · simp only [if_neg hneg, if_pos hpos, Generator.run_ret]
              exact Consults.positive halways hpos
            · simp only [if_neg hneg, if_neg hpos]
              exact Consults.zero halways (by omega) (ih answers)
    · have hnot : ¬((entry.id).2 ≠ 0 ∧ entry.contains dc.pc) := fun h => hentry ⟨h.2, h.1⟩
      rw [around_cons_of_not hnot]
      unfold searchScopes
      rw [if_neg hentry]
      exact ih answers

/-- The scope also contains the target of an unwind that ends in its frame. -/
def Contains (scopes : List ScopeEntry) (target : Option Int) (id : Nat × Nat) : Prop :=
  ∃ pc ∈ target, InScope scopes id pc

/-- A `__finally` that an unwind leaves. -/
def Leaves (scopes : List ScopeEntry) (target : Option Int) (id : Nat × Nat) : Prop :=
  id.2 = 0 ∧ ¬Contains scopes target id

/-- The function and the arguments of a call of a `__finally` block. -/
def blockCall (imageBase establisher : Nat) (id : Nat × Nat) : Nat × List Nat :=
  (imageBase + id.1, [1, establisher])

/-- The target of an unwind that ends in the frame. -/
def target (flags : Nat) : Option Int := if flags &&& exceptionTargetUnwind ≠ 0 then some dc.targetPc else none

variable {dc establisher} {scopes : List ScopeEntry} {flags : Nat}

theorem contains_target_iff {entry : ScopeEntry} :
    Contains scopes (dc.target flags) entry.id ↔
      flags &&& exceptionTargetUnwind ≠ 0 ∧ ∃ other ∈ scopes,
        other.contains dc.targetPc ∧ other.handler = entry.handler ∧ other.target = entry.target := by
  unfold Contains target
  by_cases hflags : flags &&& exceptionTargetUnwind ≠ 0
  · rw [if_pos hflags]
    constructor
    · rintro ⟨pc, hpc, other, hmem, hid, hcontains⟩
      obtain rfl := Option.some.inj hpc
      exact ⟨hflags, other, hmem, hcontains, congrArg Prod.fst hid, congrArg Prod.snd hid⟩
    · rintro ⟨-, other, hmem, hcontains, hhandler, htarget⟩
      exact ⟨dc.targetPc, rfl, other, hmem, Prod.ext hhandler htarget, hcontains⟩
  · rw [if_neg hflags]
    constructor
    · rintro ⟨pc, hpc, -⟩
      simp at hpc
    · intro h
      exact absurd h.1 hflags

/-- After a scope that contains the target no scope around the pc is left. -/
theorem around_eq_nil_of_contains {entry : ScopeEntry} {entries : List ScopeEntry} {target : Option Int}
    [DecidablePred (Leaves scopes target)] (hmem : ∀ other ∈ entry :: entries, other ∈ scopes)
    (hnested : (entry :: entries).Pairwise fun a b => ∀ x, a.contains x → InScope scopes b.id x →
      ∀ y, InScope scopes a.id y → InScope scopes b.id y)
    {pc : Int} (hpc : entry.contains pc) (htarget : Contains scopes target entry.id) :
    around (Leaves scopes target) pc (entry :: entries) = [] := by
  apply List.eq_nil_iff_forall_not_mem.mpr
  intro id hid
  obtain ⟨hleaves, other, hother, rfl, hcontains⟩ := mem_around.mp hid
  apply hleaves.2
  cases List.mem_cons.mp hother with
  | inl heq => rwa [heq]
  | inr hother =>
    obtain ⟨x, hx, hin⟩ := htarget
    have hwhole := (List.pairwise_cons.mp hnested).1 other hother pc hpc
      (inScope_of_mem (hmem other (List.mem_cons_of_mem _ hother)) hcontains)
    exact ⟨x, hx, hwhole x hin⟩

/-- The scan runs the `__finally` blocks that the unwind leaves, as far as their answers come. -/
theorem unwindScopes_run [DecidablePred (Leaves scopes (dc.target flags))] {entries : List ScopeEntry}
    (hmem : ∀ entry ∈ entries, entry ∈ scopes)
    (hnested : entries.Pairwise fun a b => ∀ x, a.contains x → InScope scopes b.id x →
      ∀ y, InScope scopes a.id y → InScope scopes b.id y)
    (index : Nat) (answers : List Nat) :
    let run := (dc.unwindScopes establisher flags scopes index entries).run answers
    let ids := around (Leaves scopes (dc.target flags)) dc.pc entries
    run.1.map (fun call => (call.function, call.args)) =
        (ids.take (answers.length + 1)).map (blockCall dc.imageBase establisher) ∧
      run.2 = if ids.length ≤ answers.length then some (.disposition .continueSearch, answers.drop ids.length)
        else none := by
  induction entries generalizing index answers with
  | nil =>
    intro run ids
    have hrun : run = ([], some (.disposition .continueSearch, answers)) := by
      show (Generator.run _ _) = _
      rw [unwindScopes, Generator.run_ret]
    rw [hrun]
    exact ⟨rfl, rfl⟩
  | cons entry entries ih =>
    have hrest := ih (fun other hother => hmem other (List.mem_cons_of_mem _ hother))
      (List.pairwise_cons.mp hnested).2 (index + 1)
    intro run ids
    by_cases hpc : entry.contains dc.pc
    · by_cases htarget : Contains scopes (dc.target flags) entry.id
      · have hids : ids = [] := around_eq_nil_of_contains hmem hnested hpc htarget
        have hrun : run = ([], some (.disposition .continueSearch, answers)) := by
          show (Generator.run _ _) = _
          rw [unwindScopes, if_neg (not_not_intro hpc), if_pos (contains_target_iff.mp htarget), Generator.run_ret]
        rw [hrun, hids]
        exact ⟨rfl, rfl⟩
      · by_cases hfinally : entry.target = 0
        · have hids : ids = entry.id :: around (Leaves scopes (dc.target flags)) dc.pc entries :=
            around_cons_of ⟨⟨hfinally, htarget⟩, hpc⟩
          have hstep : dc.unwindScopes establisher flags scopes index (entry :: entries) =
              .yield ⟨dc.imageBase + entry.handler, [1, establisher], index + 1⟩ fun _ =>
                dc.unwindScopes establisher flags scopes (index + 1) entries := by
            rw [unwindScopes, if_neg (not_not_intro hpc), if_neg (fun h => htarget (contains_target_iff.mpr h)),
              if_pos hfinally]
          cases answers with
          | nil =>
            have hrun : run = ([⟨dc.imageBase + entry.handler, [1, establisher], index + 1⟩], none) := by
              show (Generator.run _ _) = _
              rw [hstep, Generator.run_yield_nil]
            rw [hrun, hids]
            exact ⟨rfl, rfl⟩
          | cons answer answers =>
            have hrun : run = (⟨dc.imageBase + entry.handler, [1, establisher], index + 1⟩ ::
                ((dc.unwindScopes establisher flags scopes (index + 1) entries).run answers).1,
                ((dc.unwindScopes establisher flags scopes (index + 1) entries).run answers).2) := by
              show (Generator.run _ _) = _
              rw [hstep, Generator.run_yield_cons]
            obtain ⟨hcalls, hresult⟩ := hrest answers
            rw [hrun, hids, List.length_cons, List.take_succ_cons, List.map_cons, List.map_cons, hcalls, hresult]
            refine ⟨rfl, ?_⟩
            simp only [List.length_cons, Nat.add_le_add_iff_right, List.drop_succ_cons]
        · have hids : ids = around (Leaves scopes (dc.target flags)) dc.pc entries :=
            around_cons_of_not fun h => hfinally h.1.1
          have hstep : dc.unwindScopes establisher flags scopes index (entry :: entries) =
              dc.unwindScopes establisher flags scopes (index + 1) entries := by
            rw [unwindScopes, if_neg (not_not_intro hpc), if_neg (fun h => htarget (contains_target_iff.mpr h)),
              if_neg hfinally]
          rw [hids]
          show _ ∧ _
          simp only [run, hstep]
          exact hrest answers
    · have hids : ids = around (Leaves scopes (dc.target flags)) dc.pc entries :=
        around_cons_of_not fun h => hpc h.2
      have hstep : dc.unwindScopes establisher flags scopes index (entry :: entries) =
          dc.unwindScopes establisher flags scopes (index + 1) entries := by
        rw [unwindScopes, if_pos hpc]
      rw [hids]
      simp only [run, hstep]
      exact hrest answers

end DispatcherContext

/-! The unwinds through a frame. -/

/-- The control pc of a frame in its image. -/
def WalkedFrame.pc (frame : WalkedFrame) : Int := frame.rip - frame.imageBase

namespace UnwindPass

/-- The handler of the frame runs for an unwind. -/
def run (pass : UnwindPass) (scopes : List ScopeEntry) (frame : WalkedFrame) (code pointers : Nat)
    (answers : List Nat) : List ScopeCall × Option (ScopeResult × List Nat) :=
  (pass.handlerCall frame).run scopes code pointers answers

/-- The target, when the unwind ends in the frame. -/
def leavesTo (pass : UnwindPass) (frame : WalkedFrame) : Option Int :=
  (pass.handlerCall frame).dispatcherContext.target (pass.handlerCall frame).flags

theorem isUnwinding_handlerCall (pass : UnwindPass) (frame : WalkedFrame) :
    isUnwinding (pass.handlerCall frame).flags = true := by
  apply isUnwinding_of_bit
  have hbit := unwindFlags_bit pass.flags pass.targetFrame
  unfold handlerCall
  split
  next =>
    rw [Nat.testBit_lor, hbit]
    rfl
  next => exact hbit

/-- An unwind to the frame ends at its target. -/
theorem leavesTo_target {pass : UnwindPass} {frame : WalkedFrame} (h : pass.isTarget frame = true) :
    pass.leavesTo frame = some ((pass.targetIp : Int) - frame.imageBase) := by
  have hbit : ((pass.handlerCall frame).flags &&& exceptionTargetUnwind).testBit 5 = true := by
    unfold handlerCall
    have hbit : exceptionTargetUnwind.testBit 5 = true := by decide
    rw [if_pos h, Nat.testBit_land, Nat.testBit_lor, hbit, Bool.or_true]
    rfl
  have hflags : (pass.handlerCall frame).flags &&& exceptionTargetUnwind ≠ 0 := by
    intro hzero
    rw [hzero] at hbit
    simp at hbit
  unfold leavesTo DispatcherContext.target
  rw [if_pos hflags]
  rfl

/-- The blocks of an unwind are the ones that it leaves, as far as their answers come. -/
theorem run_blocks {scopes : List ScopeEntry} (h : ProperlyNested scopes) (pass : UnwindPass)
    (frame : WalkedFrame) (code pointers : Nat) (answers : List Nat) :
    ∃ ids, InnermostFirst scopes (DispatcherContext.Leaves scopes (pass.leavesTo frame)) frame.pc ids ∧
      (pass.run scopes frame code pointers answers).1.map (fun call => (call.function, call.args)) =
        (ids.take (answers.length + 1)).map (DispatcherContext.blockCall frame.imageBase frame.establisherFrame) ∧
      ((pass.run scopes frame code pointers answers).2 ≠ none → ids.length ≤ answers.length) := by
  classical
  obtain ⟨hcalls, hresult⟩ := @DispatcherContext.unwindScopes_run (pass.handlerCall frame).dispatcherContext
    frame.establisherFrame scopes (pass.handlerCall frame).flags _ scopes (fun entry hentry => hentry) h.nested 0
    answers
  have hrun : pass.run scopes frame code pointers answers =
      ((pass.handlerCall frame).dispatcherContext.unwindScopes frame.establisherFrame
        (pass.handlerCall frame).flags scopes 0 scopes).run answers := by
    unfold run LanguageCall.run DispatcherContext.cSpecificHandler
    rw [if_pos (pass.isUnwinding_handlerCall frame)]
    rfl
  rw [hrun]
  refine ⟨_, h.around (DispatcherContext.Leaves scopes (pass.leavesTo frame)) frame.pc, hcalls, fun hsome => ?_⟩
  rw [hresult] at hsome
  by_contra hlen
  exact hsome (if_neg hlen)

end UnwindPass

/-- The unwinds through a frame whose control pc stays: some that a `__finally` block interrupts, since it does
not return, and one that ends. Each has the answers of its blocks. -/
structure FrameUnwinds (scopes : List ScopeEntry) (frame : WalkedFrame) (code pointers : Nat) where
  interrupted : List (UnwindPass × List Nat)
  waiting : ∀ unwind ∈ interrupted, (unwind.1.run scopes frame code pointers unwind.2).2 = none
  last : UnwindPass
  answers : List Nat
  ends : (last.run scopes frame code pointers answers).2 ≠ none

namespace FrameUnwinds

variable {scopes : List ScopeEntry} {frame : WalkedFrame} {code pointers : Nat}

/-- A block of an unwind: its function and its arguments. -/
def block (call : ScopeCall) : Nat × List Nat := (call.function, call.args)

/-- The blocks that run in all unwinds. -/
def blocks (unwinds : FrameUnwinds scopes frame code pointers) : List (Nat × List Nat) :=
  (unwinds.interrupted.flatMap fun unwind => (unwind.1.run scopes frame code pointers unwind.2).1.map block) ++
    (unwinds.last.run scopes frame code pointers unwinds.answers).1.map block

end FrameUnwinds

/-- What a C scope handler does for a frame: the search consults the filters around the pc, and the unwinds run
the blocks that the last one leaves, each once. -/
structure ScopeLaw (scopes : List ScopeEntry) (frame : WalkedFrame) (code pointers : Nat)
    (unwinds : FrameUnwinds scopes frame code pointers) : Prop where
  search : ∀ {flags context answers}, isUnwinding flags = false →
    let dc := frame.dispatcherContext context 0
    let search := (dc.cSpecificHandler scopes code flags frame.establisherFrame pointers).run answers
    ∃ ids, InnermostFirst scopes (·.2 ≠ 0) frame.pc ids ∧
      Consults (dc.filterCall frame.establisherFrame pointers) (dc.unwindResult frame.establisherFrame code) ids
        answers search.1 search.2
  unwind : ∃ ids,
    InnermostFirst scopes (DispatcherContext.Leaves scopes (unwinds.last.leavesTo frame)) frame.pc ids ∧
      unwinds.blocks = ids.map (DispatcherContext.blockCall frame.imageBase frame.establisherFrame)

namespace FrameUnwinds

variable {scopes : List ScopeEntry} {frame : WalkedFrame} {code pointers : Nat}

theorem search_consults (h : ProperlyNested scopes) (frame : WalkedFrame) (code pointers : Nat)
    {flags context : Nat} {answers : List Nat} (hflags : isUnwinding flags = false) :
    let dc := frame.dispatcherContext context 0
    let search := (dc.cSpecificHandler scopes code flags frame.establisherFrame pointers).run answers
    ∃ ids, InnermostFirst scopes (·.2 ≠ 0) frame.pc ids ∧
      Consults (dc.filterCall frame.establisherFrame pointers) (dc.unwindResult frame.establisherFrame code) ids
        answers search.1 search.2 := by
  intro dc search
  have hsearch : search = (dc.searchScopes frame.establisherFrame pointers code scopes).run answers := by
    show Generator.run _ _ = _
    unfold DispatcherContext.cSpecificHandler
    rw [hflags, if_neg Bool.false_ne_true]
    rfl
  rw [hsearch]
  exact ⟨_, h.around (·.2 ≠ 0) frame.pc, dc.searchScopes_consults frame.establisherFrame pointers code scopes answers⟩

/-- The blocks of the last unwind are all that it leaves. -/
theorem last_blocks (h : ProperlyNested scopes) (unwinds : FrameUnwinds scopes frame code pointers) :
    ∃ ids, InnermostFirst scopes (DispatcherContext.Leaves scopes (unwinds.last.leavesTo frame)) frame.pc ids ∧
      (unwinds.last.run scopes frame code pointers unwinds.answers).1.map block =
        ids.map (DispatcherContext.blockCall frame.imageBase frame.establisherFrame) := by
  obtain ⟨ids, hids, hcalls, hlen⟩ := unwinds.last.run_blocks h frame code pointers unwinds.answers
  have hall : ids.take (unwinds.answers.length + 1) = ids := by
    have := hlen unwinds.ends
    exact List.take_of_length_le (by omega)
  rw [hall] at hcalls
  exact ⟨ids, hids, hcalls⟩

theorem blockCall_inj {imageBase establisher : Nat} {a b : Nat × Nat} (ha : a.2 = 0) (hb : b.2 = 0)
    (h : DispatcherContext.blockCall imageBase establisher a = DispatcherContext.blockCall imageBase establisher b) :
    a = b := by
  have hfunction := congrArg Prod.fst h
  simp only [DispatcherContext.blockCall] at hfunction
  exact Prod.ext (by omega) (by rw [ha, hb])

/-- A block that an interrupted unwind ran is run again by the last one, or is not left by it. -/
theorem not_law_of_interrupted (h : ProperlyNested scopes) (unwinds : FrameUnwinds scopes frame code pointers)
    (hinterrupted : unwinds.interrupted ≠ []) : ¬ScopeLaw scopes frame code pointers unwinds := by
  intro hlaw
  obtain ⟨ids, hids, hblocks⟩ := hlaw.unwind
  obtain ⟨lastIds, hlastIds, hlast⟩ := unwinds.last_blocks h
  obtain ⟨first, rest, hlist⟩ := List.exists_cons_of_ne_nil hinterrupted
  have hcalls := Generator.run_calls_ne_nil (unwinds.waiting first (by rw [hlist]; exact List.mem_cons_self))
  obtain ⟨call, calls, hcall⟩ := List.exists_cons_of_ne_nil hcalls
  have hfirst : block call ∈ unwinds.interrupted.flatMap fun unwind =>
      (unwind.1.run scopes frame code pointers unwind.2).1.map block := by
    refine List.mem_flatMap.mpr ⟨first, by rw [hlist]; exact List.mem_cons_self, List.mem_map_of_mem ?_⟩
    show call ∈ (Generator.run _ _).1
    rw [hcall]
    exact List.mem_cons_self
  have hnodup : unwinds.blocks.Nodup := by
    rw [hblocks]
    apply hids.once.map_on
    intro a ha b hb hab
    exact blockCall_inj ((hids.exact a).mp ha).1.1 ((hids.exact b).mp hb).1.1 hab
  have hin : block call ∈ unwinds.blocks := List.mem_append_left _ hfirst
  rw [hblocks] at hin
  obtain ⟨id, hid, hidcall⟩ := List.mem_map.mp hin
  have hagain : block call ∈ (unwinds.last.run scopes frame code pointers unwinds.answers).1.map block := by
    rw [hlast, ← hidcall]
    exact List.mem_map_of_mem ((hlastIds.exact id).mpr ((hids.exact id).mp hid))
  exact (List.nodup_append.mp hnodup).2.2 _ hfirst _ hagain rfl

/-- The blocks run as they should exactly when no block interrupts an unwind through the frame. -/
theorem scopeLaw_iff (h : ProperlyNested scopes) (unwinds : FrameUnwinds scopes frame code pointers) :
    ScopeLaw scopes frame code pointers unwinds ↔ unwinds.interrupted = [] := by
  constructor
  · intro hlaw
    by_contra hinterrupted
    exact unwinds.not_law_of_interrupted h hinterrupted hlaw
  · intro hnone
    refine ⟨fun hflags => search_consults h frame code pointers hflags, ?_⟩
    obtain ⟨ids, hids, hlast⟩ := unwinds.last_blocks h
    refine ⟨ids, hids, ?_⟩
    unfold blocks
    rw [hnone, hlast]
    rfl

/-- A `__finally` in two ranges inside an `__except`. -/
def guarded : List ScopeEntry := [⟨0x10, 0x18, 0x100, 0⟩, ⟨0x1c, 0x20, 0x100, 0⟩, ⟨0x10, 0x28, 1, 0x30⟩]

def guardedFrame : WalkedFrame := ⟨0x400014, 0x400000, 0x400600, 0x400500, 0x400700, 0x1000⟩

/-- The unwind to the block of the `__except`. -/
def guardedPass : UnwindPass := ⟨0x1000, 0x400030, 0, 0xE06D7363, 0x900⟩

theorem guarded_nested : ProperlyNested guarded := by
  have hfinally : ∀ {x}, InScope guarded (0x100, 0) x → 0x10 ≤ x ∧ x < 0x20 := by
    rintro x ⟨entry, hmem, hid, hlower, hupper⟩
    simp only [guarded, List.mem_cons, List.not_mem_nil, or_false] at hmem
    obtain rfl | rfl | rfl := hmem
    · simp only at hlower hupper
      omega
    · simp only at hlower hupper
      omega
    · simp [ScopeEntry.id] at hid
  have hexcept : ∀ {x : Int}, 0x10 ≤ x ∧ x < 0x20 → InScope guarded (1, 0x30) x := by
    intro x hx
    refine ⟨⟨0x10, 0x28, 1, 0x30⟩, by decide, rfl, ?_⟩
    unfold ScopeEntry.contains
    simp only
    omega
  refine ⟨?_, ?_⟩
  · refine List.pairwise_cons.mpr ⟨?_, List.pairwise_cons.mpr ⟨?_, List.pairwise_singleton _ _⟩⟩
    · intro b hb x _ hx y hy
      simp only [List.mem_cons, List.not_mem_nil, or_false] at hb
      obtain rfl | rfl := hb
      · exact hy
      · exact hexcept (hfinally hy)
    · intro b hb x _ hx y hy
      obtain rfl := List.mem_singleton.mp hb
      exact hexcept (hfinally hy)
  · refine List.pairwise_cons.mpr ⟨?_, List.pairwise_cons.mpr ⟨?_, List.pairwise_singleton _ _⟩⟩
    · intro b hb hid x hx hbx
      simp only [List.mem_cons, List.not_mem_nil, or_false] at hb
      obtain rfl | rfl := hb
      · unfold ScopeEntry.contains at hx hbx
        simp only at hx hbx
        omega
      · simp [ScopeEntry.id] at hid
    · intro b hb hid
      obtain rfl := List.mem_singleton.mp hb
      simp [ScopeEntry.id] at hid

/-- The `__finally` block returns. -/
def guardedUnwind : FrameUnwinds guarded guardedFrame 0 0 where
  interrupted := []
  waiting := by simp
  last := guardedPass
  answers := [0]
  ends := by decide

theorem scopeLaw_iff_guarded : ScopeLaw guarded guardedFrame 0 0 guardedUnwind ↔ guardedUnwind.interrupted = [] :=
  scopeLaw_iff guarded_nested guardedUnwind

/-- The `__finally` block raises, and the handler of the `__except` takes its exception too: the block runs
again. -/
def guardedUnwinds : FrameUnwinds guarded guardedFrame 0 0 where
  interrupted := [(guardedPass, [])]
  waiting := by decide
  last := guardedPass
  answers := [0]
  ends := by decide

theorem scopeLaw_not_always :
    ProperlyNested guarded ∧ guardedUnwinds.blocks = [(0x400100, [1, 0x1000]), (0x400100, [1, 0x1000])] ∧
      ¬ScopeLaw guarded guardedFrame 0 0 guardedUnwinds :=
  ⟨guarded_nested, by decide, not_law_of_interrupted guarded_nested guardedUnwinds (by decide)⟩

end FrameUnwinds

end Speakeasy
