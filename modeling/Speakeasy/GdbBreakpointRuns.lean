import Speakeasy.GdbBreakpoints
import Speakeasy.GdbServer

namespace Speakeasy

open IntervalMerges

/-- What the hooks of a run read and change. -/
structure DebugRun where
  running : Bool
  /-- The reason of a stop that is pending. -/
  stop : Option StopReason
  resumePc : Option Nat
  engineStopped : Bool

/-- `_request_stop` -/
def DebugRun.requestStop (run : DebugRun) (reason : StopReason) : DebugRun :=
  if !run.running || run.stop.isSome then run
  else { run with stop := some reason, engineStopped := run.engineStopped || !reason.isWatch }

/-- The type of a breakpoint at an address. -/
def BreakpointTable.breakpointType (t : BreakpointTable) (address : Nat) : Option Int :=
  match t.execBreakpointAddresses.get? address with
  | some type => some type
  | none =>
    (t.execBreakpointRanges.find? fun (begin, size, _) => begin ≤ address ∧ address < begin + size).map
      fun b => b.2.2

/-- `_on_code`, with the breakpoint stop that it requests. -/
def BreakpointTable.onCode (t : BreakpointTable) (run : DebugRun) (address : Nat) :
    DebugRun × Option StopReason :=
  if run.stop.any StopReason.isWatch then ({ run with engineStopped := true }, none)
  else if run.resumePc = some address then ({ run with resumePc := none }, none)
  else
    match t.breakpointType address with
    | none => (run, none)
    | some type =>
      let reason : StopReason :=
        { kind := if type = 0 then .swbreak else .hwbreak, address := some address }
      (run.requestStop reason, some reason)

namespace Debugger

/-- Whether a code hook of a range is called at an address. Unicorn has the ends of the range in 64 bits, and calls a
hook whose end is in front of its begin at every address. -/
def CallsAt (range : Int × Int) (address : Nat) : Prop :=
  range.2 % 0x10000000000000000 < range.1 % 0x10000000000000000 ∨
    range.1 % 0x10000000000000000 ≤ address ∧ address ≤ range.2 % 0x10000000000000000

instance (range : Int × Int) (address : Nat) : Decidable (CallsAt range address) := by
  unfold CallsAt
  infer_instance

/-- How many hooks call `_on_code` for an instruction. -/
def codeCalls (d : Debugger) (address : Nat) : Nat :=
  (if d.hooks.code then 1 else 0) + (d.hooks.breakpoints.keys.filter fun range => CallsAt range address).length

/-- The calls for an instruction, with the breakpoint stops that they request. -/
def callHooks (t : BreakpointTable) (address : Nat) : Nat → DebugRun → DebugRun × List StopReason
  | 0, run => (run, [])
  | calls + 1, run =>
    let (run, request) := t.onCode run address
    let (run, requests) := callHooks t address calls run
    (run, request.toList ++ requests)

def instruction (d : Debugger) (run : DebugRun) (address : Nat) : DebugRun × List StopReason :=
  callHooks d.table address (d.codeCalls address) run

/-- An instruction, or a stop that another hook or thread requests. -/
inductive RunEvent
  | instruction (address : Nat)
  | stop (reason : StopReason)

def runEvent (d : Debugger) (run : DebugRun) : RunEvent → DebugRun
  | .instruction address => (d.instruction run address).1
  | .stop reason => run.requestStop reason

def runEvents (d : Debugger) (run : DebugRun) (events : List RunEvent) : DebugRun :=
  events.foldl d.runEvent run

/-- The run that `begin_run` starts at a pc, where `resumePc` is where the client resumed. -/
def beginRun (resumePc : Option Nat) (pc : Nat) : DebugRun :=
  ⟨true, none, if resumePc = some pc then resumePc else none, false⟩

/-- The addresses of the instructions among some events. -/
def addresses (events : List RunEvent) : List Nat :=
  events.filterMap fun
    | .instruction address => some address
    | .stop _ => none

def HasBreakpoint (d : Debugger) (address : Int) : Prop :=
  ∃ b ∈ d.table.execBreakpoints.keys, b.Hits address

/-- The breakpoints are on addresses of 64 bits. -/
def InAddresses (d : Debugger) : Prop :=
  ∀ b ∈ d.table.execBreakpoints.keys, 0 ≤ b.1 ∧ b.1 + b.2.1 ≤ 0x10000000000000000

instance (d : Debugger) : Decidable d.InAddresses := by
  unfold InAddresses
  infer_instance

end Debugger

namespace BreakpointTable

variable {t : BreakpointTable} (h : t.Derived) (address : Nat)

include h

theorem mem_addresses : (address : Int) ∈ t.execBreakpointAddresses.keys ↔
    ∃ b ∈ t.execBreakpoints.keys, b.2.1 = 1 ∧ b.1 = address := by
  rw [h.addresses, oneByteBreakpoints, OrderedDict.mem_foldl_insert]
  constructor
  · rintro (hin | ⟨e, he, hbegin⟩)
    · cases hin
    · obtain ⟨he, hsize⟩ := List.mem_filter.mp he
      exact ⟨e.1, OrderedDict.mem_keys.mpr ⟨e.2, he⟩, of_decide_eq_true hsize, hbegin⟩
  · rintro ⟨b, hb, hsize, hbegin⟩
    obtain ⟨v, hv⟩ := OrderedDict.mem_keys.mp hb
    exact Or.inr ⟨(b, v), List.mem_filter.mpr ⟨hv, decide_eq_true hsize⟩, hbegin⟩

theorem mem_ranges : (∃ r ∈ t.execBreakpointRanges, r.1 ≤ (address : Int) ∧ address < r.1 + r.2.1) ↔
    ∃ b ∈ t.execBreakpoints.keys, 1 < b.2.1 ∧ b.Hits address := by
  rw [h.ranges, largeBreakpoints]
  constructor
  · rintro ⟨r, hr, hhit⟩
    obtain ⟨e, he, rfl⟩ := List.mem_map.mp hr
    obtain ⟨he, hsize⟩ := List.mem_filter.mp he
    exact ⟨e.1, OrderedDict.mem_keys.mpr ⟨e.2, he⟩, of_decide_eq_true hsize, hhit⟩
  · rintro ⟨b, hb, hsize, hhit⟩
    obtain ⟨v, hv⟩ := OrderedDict.mem_keys.mp hb
    exact ⟨_, List.mem_map.mpr ⟨(b, v), List.mem_filter.mpr ⟨hv, decide_eq_true hsize⟩, rfl⟩, hhit⟩

/-- The two tables of a run find a breakpoint of any size. -/
theorem breakpointType_isSome :
    (t.breakpointType address).isSome ↔ ∃ b ∈ t.execBreakpoints.keys, b.Hits address := by
  have haddresses := mem_addresses h address
  have hranges := mem_ranges h address
  have hsplit : (∃ b ∈ t.execBreakpoints.keys, b.Hits address) ↔
      (∃ b ∈ t.execBreakpoints.keys, b.2.1 = 1 ∧ b.1 = address) ∨
      ∃ b ∈ t.execBreakpoints.keys, 1 < b.2.1 ∧ b.Hits address := by
    constructor
    · rintro ⟨b, hb, hhit⟩
      have hsize := h.sizes b hb
      by_cases hone : b.2.1 = 1
      · refine Or.inl ⟨b, hb, hone, ?_⟩
        unfold Breakpoint.Hits at hhit
        omega
      · exact Or.inr ⟨b, hb, by omega, hhit⟩
    · rintro (⟨b, hb, hone, hbegin⟩ | ⟨b, hb, _, hhit⟩)
      · refine ⟨b, hb, ?_⟩
        unfold Breakpoint.Hits
        omega
      · exact ⟨b, hb, hhit⟩
  rw [hsplit, ← haddresses, ← hranges]
  unfold breakpointType
  cases hget : t.execBreakpointAddresses.get? address with
  | some type => simp [OrderedDict.mem_keys_of_get? hget]
  | none =>
    have hout := OrderedDict.get?_eq_none.mp hget
    simp only [hout, false_or, Option.isSome_map, List.find?_isSome, Bool.decide_and, Bool.and_eq_true,
      decide_eq_true_eq]

theorem onCode_requests {run : DebugRun} (hwatch : run.stop.any StopReason.isWatch = false) :
    (t.onCode run address).2.isSome ↔
      (∃ b ∈ t.execBreakpoints.keys, b.Hits address) ∧ run.resumePc ≠ some address := by
  have htype := breakpointType_isSome h address
  unfold onCode
  rw [hwatch, if_neg Bool.false_ne_true]
  by_cases hresume : run.resumePc = some address
  · simp [hresume]
  · rw [if_neg hresume, ← htype]
    cases t.breakpointType address with
    | none => simp
    | some type => simp [hresume]

end BreakpointTable

/-- A run that stops for a watchpoint requests no other stop. -/
theorem BreakpointTable.onCode_watch {t : BreakpointTable} {run : DebugRun}
    (hwatch : run.stop.any StopReason.isWatch = true) (address : Nat) :
    t.onCode run address = ({ run with engineStopped := true }, none) := by
  unfold onCode
  rw [if_pos hwatch]

theorem length_le_one_of_pairwise {α : Type*} {l : List α} (h : l.Pairwise fun _ _ => False) :
    l.length ≤ 1 := by
  match l, h with
  | [], _ => simp
  | [_], _ => simp
  | _ :: b :: _, h => exact ((List.pairwise_cons.mp h).1 b (by simp)).elim

namespace Debugger

section Calls

variable {d : Debugger} (hd : d.table.Derived) (hlaw : d.HooksLaw) (hfits : d.InAddresses)

include hd hlaw hfits

/-- A hook on addresses of 64 bits is called at those of its range. -/
theorem callsAt_iff {range : Int × Int} (hrange : range ∈ d.hooks.breakpoints.keys) (address : Nat) :
    CallsAt range address ↔ InRange range address := by
  have hends := (BreakpointTable.breakpointRanges_apart hd).2.1 range ((hlaw.ranges range).mp hrange).2
  obtain ⟨-, b, hb, hfirst⟩ := (hlaw.covers hd range.1).mp ⟨range, hrange, Int.le_refl _, hends⟩
  obtain ⟨-, c, hc, hlast⟩ := (hlaw.covers hd range.2).mp ⟨range, hrange, hends, Int.le_refl _⟩
  have hb := hfits b hb
  have hc := hfits c hc
  unfold Breakpoint.Hits at hfirst hlast
  unfold CallsAt InRange
  rw [Int.emod_eq_of_lt (by omega) (by omega), Int.emod_eq_of_lt (by omega) (by omega)]
  omega

theorem filter_ranges_length (address : Nat) :
    (d.hooks.breakpoints.keys.filter fun range => CallsAt range address).length ≤ 1 := by
  refine length_le_one_of_pairwise ?_
  refine (List.Pairwise.filter _ (hlaw.apart hd)).imp_of_mem ?_
  intro a b ha hb hapart
  obtain ⟨hina, hcalla⟩ := List.mem_filter.mp ha
  obtain ⟨hinb, hcallb⟩ := List.mem_filter.mp hb
  have ha := (callsAt_iff hd hlaw hfits hina address).mp (of_decide_eq_true hcalla)
  have hb := (callsAt_iff hd hlaw hfits hinb address).mp (of_decide_eq_true hcallb)
  unfold InRange at ha hb
  unfold Apart at hapart
  omega

/-- One hook calls `_on_code` for an instruction of a breakpoint. -/
theorem codeCalls_hit {address : Nat} (h : d.HasBreakpoint address) : d.codeCalls address = 1 := by
  have hcovers := hlaw.covers hd address
  have hle := filter_ranges_length hd hlaw hfits address
  unfold codeCalls
  rw [hlaw.code]
  cases hwatching : d.table.watching with
  | true =>
    have hnone : d.hooks.breakpoints.keys = [] := by
      refine List.eq_nil_iff_forall_not_mem.mpr fun range hrange => ?_
      have hfalse := ((hlaw.ranges range).mp hrange).1
      rw [hwatching] at hfalse
      cases hfalse
    simp [hnone]
  | false =>
    obtain ⟨range, hin, hrange⟩ := hcovers.mpr ⟨hwatching, h⟩
    have hmem : range ∈ d.hooks.breakpoints.keys.filter fun range => CallsAt range address :=
      List.mem_filter.mpr ⟨hin, decide_eq_true ((callsAt_iff hd hlaw hfits hin address).mpr hrange)⟩
    have hpos := List.length_pos_of_mem hmem
    simp only [Bool.false_eq_true, if_false]
    omega

theorem codeCalls_miss {address : Nat} (h : ¬d.HasBreakpoint address) : d.codeCalls address ≤ 1 := by
  have hcovers := hlaw.covers hd address
  have hnone : (d.hooks.breakpoints.keys.filter fun range => CallsAt range address) = [] := by
    refine List.eq_nil_iff_forall_not_mem.mpr fun range hrange => ?_
    obtain ⟨hin, hcall⟩ := List.mem_filter.mp hrange
    exact h (hcovers.mp ⟨range, hin, (callsAt_iff hd hlaw hfits hin address).mp (of_decide_eq_true hcall)⟩).2
  unfold codeCalls
  rw [hnone]
  split
  next => simp
  next => simp

/-- A breakpoint stop is requested where a breakpoint is, save at the pc of a resume. -/
theorem instruction_requests {run : DebugRun} (hwatch : run.stop.any StopReason.isWatch = false)
    (address : Nat) : (d.instruction run address).2 ≠ [] ↔
      d.HasBreakpoint address ∧ run.resumePc ≠ some address := by
  have hcode := d.table.onCode_requests hd address hwatch
  unfold instruction
  by_cases hhit : d.HasBreakpoint address
  · rw [codeCalls_hit hd hlaw hfits hhit, show d.HasBreakpoint address ∧ run.resumePc ≠ some address ↔ _ from hcode.symm]
    cases hrequest : (d.table.onCode run address).2 with
    | none => simp [callHooks, hrequest]
    | some reason => simp [callHooks, hrequest]
  · have hnone : (d.table.onCode run address).2 = none := by
      rw [← Option.not_isSome_iff_eq_none]
      exact fun hsome => hhit (hcode.mp hsome).1
    have hle := codeCalls_miss hd hlaw hfits hhit
    have hempty : (callHooks d.table address (d.codeCalls address) run).2 = [] := by
      match hcalls : d.codeCalls address, hle with
      | 0, _ => rfl
      | 1, _ => simp [callHooks, hnone]
    simp [hempty, hhit]

end Calls

end Debugger

namespace Debugger

variable {d : Debugger}

/-- The resume pc that a run has left is no breakpoint, or the run stops for a watchpoint. -/
def Passed (d : Debugger) (run : DebugRun) : Prop :=
  run.stop.any StopReason.isWatch = true ∨ ∀ a : Nat, run.resumePc = some a → ¬d.HasBreakpoint a

theorem requestStop_resumePc (run : DebugRun) (reason : StopReason) :
    (run.requestStop reason).resumePc = run.resumePc := by
  unfold DebugRun.requestStop
  split
  next => rfl
  next => rfl

theorem requestStop_watch {run : DebugRun} (h : run.stop.any StopReason.isWatch = true) (reason : StopReason) :
    (run.requestStop reason).stop = run.stop := by
  have hsome : run.stop.isSome := by
    cases hstop : run.stop with
    | none => simp [hstop] at h
    | some r => rfl
  unfold DebugRun.requestStop
  rw [if_pos (by rw [hsome, Bool.or_true])]

theorem Passed.requestStop {run : DebugRun} (h : d.Passed run) (reason : StopReason) :
    d.Passed (run.requestStop reason) := by
  cases h with
  | inl hwatch => exact Or.inl (by rw [requestStop_watch hwatch]; exact hwatch)
  | inr hnone => exact Or.inr (by rw [requestStop_resumePc]; exact hnone)

/-- `_on_code` keeps the resume pc, or clears it at its address. -/
theorem onCode_resumePc (t : BreakpointTable) (run : DebugRun) (address : Nat) :
    (t.onCode run address).1.resumePc = run.resumePc ∨ (t.onCode run address).1.resumePc = none := by
  unfold BreakpointTable.onCode
  split
  next => exact Or.inl rfl
  split
  next => exact Or.inr rfl
  split
  next => exact Or.inl rfl
  next => exact Or.inl (requestStop_resumePc ..)

theorem Passed.onCode {run : DebugRun} (h : d.Passed run) (address : Nat) :
    d.Passed (d.table.onCode run address).1 := by
  cases h with
  | inl hwatch =>
    rw [BreakpointTable.onCode_watch hwatch]
    exact Or.inl hwatch
  | inr hnone =>
    refine Or.inr fun a ha => ?_
    cases onCode_resumePc d.table run address with
    | inl hsame => exact hnone a (hsame ▸ ha)
    | inr hclear =>
      rw [hclear] at ha
      cases ha

theorem Passed.callHooks {run : DebugRun} (h : d.Passed run) (address calls : Nat) :
    d.Passed (callHooks d.table address calls run).1 := by
  induction calls generalizing run with
  | zero => exact h
  | succ calls ih => exact ih (h.onCode address)

theorem Passed.runEvents {run : DebugRun} (h : d.Passed run) (events : List RunEvent) :
    d.Passed (d.runEvents run events) := by
  induction events generalizing run with
  | nil => exact h
  | cons event events ih =>
    cases event with
    | instruction address => exact ih (h.callHooks address _)
    | stop reason => exact ih (h.requestStop reason)

/-- The first instruction clears the resume pc, unless no breakpoint is there. -/
theorem passed_instruction (hd : d.table.Derived) (hlaw : d.HooksLaw) (hfits : d.InAddresses) {run : DebugRun} {pc : Nat}
    (h : ∀ a, run.resumePc = some a → a = pc) : d.Passed (d.instruction run pc).1 := by
  by_cases hhit : d.HasBreakpoint pc
  · unfold instruction
    rw [codeCalls_hit hd hlaw hfits hhit]
    show d.Passed (d.table.onCode run pc).1
    cases hwatch : run.stop.any StopReason.isWatch with
    | true =>
      rw [BreakpointTable.onCode_watch hwatch]
      exact Or.inl hwatch
    | false =>
      refine Or.inr fun a ha => ?_
      cases hresume : run.resumePc with
      | none =>
        cases onCode_resumePc d.table run pc with
        | inl hsame =>
          rw [hsame, hresume] at ha
          cases ha
        | inr hclear =>
          rw [hclear] at ha
          cases ha
      | some b =>
        have hb := h b hresume
        subst hb
        unfold BreakpointTable.onCode at ha
        rw [hwatch, if_neg Bool.false_ne_true, if_pos hresume] at ha
        cases ha
  · have hpassed : d.Passed run := Or.inr fun a ha => by rw [h a ha]; exact hhit
    exact hpassed.callHooks pc _

/-- What is left of the resume pc of a run, before and after its first instruction. -/
theorem runEvents_resumePc (hd : d.table.Derived) (hlaw : d.HooksLaw) (hfits : d.InAddresses) {run : DebugRun}
    {pc : Nat} (h : ∀ a, run.resumePc = some a → a = pc) (events : List RunEvent) :
    (addresses events = [] → (d.runEvents run events).resumePc = run.resumePc) ∧
    ((addresses events).head? = some pc → d.Passed (d.runEvents run events)) := by
  induction events generalizing run with
  | nil => exact ⟨fun _ => rfl, fun hhead => by cases hhead⟩
  | cons event events ih =>
    cases event with
    | instruction address =>
      refine ⟨fun hnil => (by cases hnil), fun hhead => ?_⟩
      have haddress : address = pc := Option.some.inj hhead
      subst haddress
      exact (passed_instruction hd hlaw hfits h).runEvents events
    | stop reason =>
      have hsame := requestStop_resumePc run reason
      have hstop : ∀ a, (run.requestStop reason).resumePc = some a → a = pc := by
        rw [hsame]
        exact h
      obtain ⟨hnone, hfirst⟩ := ih hstop
      exact ⟨fun hnil => (hnone hnil).trans hsame, hfirst⟩

/-- A stop is requested at the breakpoints, save at the first instruction where the client resumed. -/
theorem runEvents_requests (hd : d.table.Derived) (hlaw : d.HooksLaw) (hfits : d.InAddresses)
    (resumePc : Option Nat) {pc address : Nat} {events : List RunEvent}
    (hfirst : (addresses events ++ [address]).head? = some pc)
    (hwatch : (d.runEvents (beginRun resumePc pc) events).stop.any StopReason.isWatch = false) :
    (d.instruction (d.runEvents (beginRun resumePc pc) events) address).2 ≠ [] ↔
      d.HasBreakpoint address ∧ ¬(resumePc = some pc ∧ addresses events = []) := by
  have hbegin : ∀ a, (beginRun resumePc pc).resumePc = some a → a = pc := by
    intro a ha
    unfold beginRun at ha
    simp only at ha
    split at ha
    next hpc => exact Option.some.inj (ha.symm.trans hpc)
    next => cases ha
  obtain ⟨hnone, hpassed⟩ := runEvents_resumePc hd hlaw hfits hbegin events
  rw [instruction_requests hd hlaw hfits hwatch]
  refine and_congr_right fun hhit => ?_
  by_cases hempty : addresses events = []
  · have haddress : address = pc := by
      rw [hempty] at hfirst
      exact Option.some.inj hfirst
    rw [hnone hempty, haddress]
    unfold beginRun
    by_cases hpc : resumePc = some pc
    · simp [hpc, hempty]
    · simp [hpc]
  · have hhead : (addresses events).head? = some pc := by
      obtain ⟨a, rest, heq⟩ := List.exists_cons_of_ne_nil hempty
      rw [heq] at hfirst ⊢
      exact hfirst
    cases hpassed hhead with
    | inl hstop =>
      rw [hstop] at hwatch
      cases hwatch
    | inr hclear =>
      have hne : (d.runEvents (beginRun resumePc pc) events).resumePc ≠ some address :=
        fun heq => hclear address heq hhit
      simp [hne, hempty]

/-- What the hooks and a run do after any packets, unless a watch stop is pending. -/
theorem breakpoints_law (accepts : DebugHooks → HookCall → Bool) (packets : List Packet)
    (hdone : ((afterPackets accepts packets).refreshHooks accepts).2 = true) :
    let d := ((afterPackets accepts packets).refreshHooks accepts).1
    d.hooks.breakpoints.keys.Pairwise (fun a b => Apart a b ∨ Apart b a) ∧
    (d.table.watching = false → ∀ x, Covers d.hooks.breakpoints.keys x ↔ d.HasBreakpoint x) ∧
    (d.table.watching = true → d.hooks.breakpoints.keys = [] ∧ d.hooks.code = true) ∧
    (d.InAddresses → ∀ resumePc pc events address, (addresses events ++ [address]).head? = some pc →
      (d.runEvents (beginRun resumePc pc) events).stop.any StopReason.isWatch = false →
      ((d.instruction (d.runEvents (beginRun resumePc pc) events) address).2 ≠ [] ↔
        d.HasBreakpoint address ∧ ¬(resumePc = some pc ∧ addresses events = []))) := by
  intro d
  have hd : d.table.Derived := afterPackets_derived packets
  have hlaw : d.HooksLaw := refreshHooks_law hdone
  refine ⟨hlaw.apart hd, ?_, ?_, ?_⟩
  · intro hwatching x
    rw [hlaw.covers hd x, and_iff_right hwatching]
    rfl
  · intro hwatching
    refine ⟨List.eq_nil_iff_forall_not_mem.mpr fun range hrange => ?_, hlaw.code.trans hwatching⟩
    have hfalse := ((hlaw.ranges range).mp hrange).1
    rw [hwatching] at hfalse
    cases hfalse
  · intro hfits resumePc pc events address hfirst hwatch
    exact runEvents_requests hd hlaw hfits resumePc hfirst hwatch

/-- An engine that refuses no hook. -/
def anyHook (_ : DebugHooks) (_ : HookCall) : Bool := true

theorem runCalls_anyHook (h : DebugHooks) (calls : List HookCall) : (h.runCalls anyHook calls).2 = true := by
  induction calls generalizing h with
  | nil => rfl
  | cons call calls ih => exact ih _

theorem refreshHooks_anyHook (d : Debugger) : (d.refreshHooks anyHook).2 = true := runCalls_anyHook ..

/-- Two breakpoints that touch. -/
def touching : List Packet := [rsp "Z0,1000,2", rsp "Z1,1002,1"]

theorem touching_keys :
    (afterPackets anyHook touching).table.execBreakpoints.keys = [(0x1000, 2, 0), (0x1002, 1, 1)] := by
  decide

theorem breakpoints_law_touching :
    Covers (afterPackets anyHook touching |>.refreshHooks anyHook).1.hooks.breakpoints.keys 0x1002 := by
  have hlaw := breakpoints_law anyHook touching (refreshHooks_anyHook _)
  refine (hlaw.2.1 (by decide) 0x1002).mpr ⟨(0x1002, 1, 1), ?_, by decide⟩
  rw [refreshHooks_table, touching_keys]
  exact List.mem_cons_of_mem _ List.mem_cons_self

/-- A watchpoint, then a breakpoint. -/
def watched : List Packet := [rsp "Z2,2000,4", rsp "Z0,1000,2"]

/-- While a watch stop is pending, an instruction at a breakpoint requests no stop. -/
theorem breakpoints_not_always :
    ¬∀ (accepts : DebugHooks → HookCall → Bool) (packets : List Packet),
      ((afterPackets accepts packets).refreshHooks accepts).2 = true →
      let d := ((afterPackets accepts packets).refreshHooks accepts).1
      ∀ resumePc pc events address, (addresses events ++ [address]).head? = some pc →
        ((d.instruction (d.runEvents (beginRun resumePc pc) events) address).2 ≠ [] ↔
          d.HasBreakpoint address ∧ ¬(resumePc = some pc ∧ addresses events = [])) := by
  intro h
  let d := ((afterPackets anyHook watched).refreshHooks anyHook).1
  have hpackets := h anyHook watched (refreshHooks_anyHook _) none 0xFFF
    [.instruction 0xFFF, .stop { kind := .watch, address := some 0x2000 }] 0x1000 rfl
  have hhit : d.HasBreakpoint (0x1000 : Nat) := ⟨(0x1000, 2, 0), by decide, by decide⟩
  have hnone : (d.instruction (d.runEvents (beginRun none 0xFFF)
      [.instruction 0xFFF, .stop { kind := .watch, address := some 0x2000 }]) 0x1000).2 = [] := by
    decide +kernel
  exact hpackets.mpr ⟨hhit, by simp⟩ hnone

end Debugger

end Speakeasy
