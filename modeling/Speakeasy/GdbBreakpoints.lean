import Speakeasy.GdbCommands
import Speakeasy.IntervalMerges
import Speakeasy.OrderedDict
import Speakeasy.PyBytes
import Mathlib.Data.List.Pairwise

namespace Speakeasy

section

open PyBytes IntervalMerges

/-- Address, size and type of a breakpoint. -/
abbrev Breakpoint := Int × Int × Int

/-- Address and size of a watchpoint. -/
abbrev Watchpoint := Int × Int

structure BreakpointTable where
  execBreakpoints : OrderedDict Breakpoint Int
  execBreakpointAddresses : OrderedDict Int Int
  execBreakpointRanges : List (Int × Int × Int)
  readWatchpoints : OrderedDict Watchpoint Int
  writeWatchpoints : OrderedDict Watchpoint Int
  accessWatchpoints : OrderedDict Watchpoint Int

/-- The hooks of the debugger that the engine has, where those of breakpoints are known by their ranges. -/
structure DebugHooks where
  code : Bool
  read : Bool
  write : Bool
  breakpoints : OrderedDict (Int × Int) Unit

structure Debugger where
  table : BreakpointTable
  hooks : DebugHooks

inductive HookCall
  | setCode (enabled : Bool)
  | removeRange (range : Int × Int)
  | addRange (range : Int × Int)
  | flush
  | setRead (enabled : Bool)
  | setWrite (enabled : Bool)
deriving DecidableEq

namespace BreakpointTable

def empty : BreakpointTable := ⟨.empty, .empty, [], .empty, .empty, .empty⟩

def watching (t : BreakpointTable) : Bool :=
  !(t.readWatchpoints.keys.isEmpty && t.writeWatchpoints.keys.isEmpty && t.accessWatchpoints.keys.isEmpty)

/-- The order of tuples. -/
def breakpointLe (a b : Breakpoint) : Bool :=
  a.1 < b.1 || (a.1 = b.1 && (a.2.1 < b.2.1 || (a.2.1 = b.2.1 && a.2.2 ≤ b.2.2)))

/-- `_breakpoint_ranges` -/
def breakpointRanges (t : BreakpointTable) : List (Int × Int) :=
  mergeRanges ((t.execBreakpoints.keys.mergeSort breakpointLe).map fun b => (b.1, b.1 + b.2.1 - 1))

def oneByteBreakpoints (breakpoints : OrderedDict Breakpoint Int) : OrderedDict Int Int :=
  (breakpoints.entries.filter fun e => e.1.2.1 = 1).foldl (fun d e => d.insert e.1.1 e.2) .empty

def largeBreakpoints (breakpoints : OrderedDict Breakpoint Int) : List (Int × Int × Int) :=
  (breakpoints.entries.filter fun e => e.1.2.1 > 1).map fun e => (e.1.1, e.1.2.1, e.2)

def changeExec (t : BreakpointTable) (set : Bool) (key : Breakpoint) : BreakpointTable :=
  let breakpoints := if set then t.execBreakpoints.insert key key.2.2 else t.execBreakpoints.pop key
  { t with
    execBreakpoints := breakpoints
    execBreakpointAddresses := oneByteBreakpoints breakpoints
    execBreakpointRanges := largeBreakpoints breakpoints }

def changeWatchpoints (set : Bool) (target : OrderedDict Watchpoint Int) (key : Watchpoint) (type : Int) :
    OrderedDict Watchpoint Int :=
  if set then target.insert key type else target.pop key

/-- What `_change_breakpoint` does to its dictionaries. There is no result for another type. -/
def change (t : BreakpointTable) (set : Bool) (type address size : Int) : Option BreakpointTable :=
  if type = 0 ∨ type = 1 then some (t.changeExec set (address, size, type))
  else if type = 2 then
    some { t with writeWatchpoints := changeWatchpoints set t.writeWatchpoints (address, size) type }
  else if type = 3 then
    some { t with readWatchpoints := changeWatchpoints set t.readWatchpoints (address, size) type }
  else if type = 4 then
    some { t with accessWatchpoints := changeWatchpoints set t.accessWatchpoints (address, size) type }
  else none

end BreakpointTable

/-- Type, address and size in a `Z` or `z` packet, where `none` is the `ValueError`. -/
def parseBreakpoint (payload : Packet) : Option (Int × Int × Int) :=
  match split 0x2C 2 (payload.drop 1) with
  | [typeText, addressText, sizeText] =>
    match intHex typeText, intHex addressText, intHex ((split 0x3B 1 sizeText).headD []) with
    | some type, some address, some size => if size ≤ 0 then none else some (type, address, size)
    | _, _, _ => none
  | _ => none

namespace DebugHooks

def accept (h : DebugHooks) : HookCall → DebugHooks
  | .setCode enabled => { h with code := enabled }
  | .removeRange range => { h with breakpoints := h.breakpoints.pop range }
  | .addRange range => { h with breakpoints := h.breakpoints.insert range () }
  | .flush => h
  | .setRead enabled => { h with read := enabled }
  | .setWrite enabled => { h with write := enabled }

/-- What a call leaves when it raises. `_breakpoint_hooks.pop` comes before the call to the engine. -/
def refuse (h : DebugHooks) : HookCall → DebugHooks
  | .removeRange range => { h with breakpoints := h.breakpoints.pop range }
  | _ => h

/-- Calls until the engine refuses one, and if it accepts all of them. -/
def runCalls (accepts : DebugHooks → HookCall → Bool) (h : DebugHooks) : List HookCall → DebugHooks × Bool
  | [] => (h, true)
  | call :: calls =>
    if accepts h call then runCalls accepts (h.accept call) calls else (h.refuse call, false)

end DebugHooks

namespace Debugger

/-- The calls of `_refresh_hooks`. -/
def refreshCalls (d : Debugger) : List HookCall :=
  let watching := d.table.watching
  let wanted := if watching then [] else d.table.breakpointRanges
  let removed := d.hooks.breakpoints.keys.filter (· ∉ wanted)
  let added := wanted.filter (· ∉ d.hooks.breakpoints.keys)
  let reading := !(d.table.readWatchpoints.keys.isEmpty && d.table.accessWatchpoints.keys.isEmpty)
  let writing := !(d.table.writeWatchpoints.keys.isEmpty && d.table.accessWatchpoints.keys.isEmpty)
  (if d.hooks.code = watching then [] else [.setCode watching]) ++
    removed.map .removeRange ++ added.map .addRange ++
    (if (watching && !d.hooks.code) || !added.isEmpty then [.flush] else []) ++
    (if d.hooks.read = reading then [] else [.setRead reading]) ++
    (if d.hooks.write = writing then [] else [.setWrite writing])

variable (accepts : DebugHooks → HookCall → Bool)

/-- `_refresh_hooks`, and if it ends without an exception. -/
def refreshHooks (d : Debugger) : Debugger × Bool :=
  let (hooks, completed) := d.hooks.runCalls accepts d.refreshCalls
  ({ d with hooks := hooks }, completed)

/-- `_change_breakpoint` -/
def changeBreakpoint (d : Debugger) (payload : Packet) : Packet × Debugger :=
  match parseBreakpoint payload with
  | none => (rsp "E01", d)
  | some (type, address, size) =>
    match d.table.change (payload.take 1 = rsp "Z") type address size with
    | none => ([], d)
    | some table =>
      let (d, completed) := refreshHooks accepts { d with table := table }
      (if completed then rsp "OK" else rsp "E01", d)

/-- The debugger after `_install_hooks`. -/
def installed : Debugger :=
  (refreshHooks accepts ⟨.empty, ⟨true, true, true, .empty⟩⟩).1

/-- The debugger after some packets. -/
def afterPackets (packets : List Packet) : Debugger :=
  packets.foldl (fun d payload => (d.changeBreakpoint accepts payload).2) (installed accepts)

end Debugger

/-! The tables that are made from the breakpoints. -/

/-- A breakpoint has an address in its range. -/
def Breakpoint.Hits (b : Breakpoint) (x : Int) : Prop := b.1 ≤ x ∧ x < b.1 + b.2.1

instance (b : Breakpoint) (x : Int) : Decidable (b.Hits x) := inferInstanceAs (Decidable (_ ∧ _))

namespace BreakpointTable

structure Derived (t : BreakpointTable) : Prop where
  sizes : ∀ b ∈ t.execBreakpoints.keys, 0 < b.2.1
  addresses : t.execBreakpointAddresses = oneByteBreakpoints t.execBreakpoints
  ranges : t.execBreakpointRanges = largeBreakpoints t.execBreakpoints

theorem empty_derived : empty.Derived := ⟨by simp [empty], rfl, rfl⟩

theorem Derived.changeExec {t : BreakpointTable} (h : t.Derived) {key : Breakpoint} (hkey : 0 < key.2.1)
    (set : Bool) : (t.changeExec set key).Derived := by
  refine ⟨fun b hb => ?_, rfl, rfl⟩
  cases set with
  | false => exact h.sizes b (OrderedDict.mem_keys_pop.mp hb).1
  | true =>
    cases OrderedDict.mem_keys_insert.mp hb with
    | inl hin => exact h.sizes b hin
    | inr hnew => rw [hnew]; exact hkey

theorem Derived.change {t t' : BreakpointTable} (h : t.Derived) {set : Bool} {type address size : Int}
    (hsize : 0 < size) (hchange : t.change set type address size = some t') : t'.Derived := by
  unfold BreakpointTable.change at hchange
  split at hchange
  next =>
    cases hchange
    exact h.changeExec hsize set
  split at hchange
  next =>
    cases hchange
    exact ⟨h.sizes, h.addresses, h.ranges⟩
  split at hchange
  next =>
    cases hchange
    exact ⟨h.sizes, h.addresses, h.ranges⟩
  split at hchange
  next =>
    cases hchange
    exact ⟨h.sizes, h.addresses, h.ranges⟩
  next => cases hchange

end BreakpointTable

theorem parseBreakpoint_size {payload : Packet} {type address size : Int}
    (h : parseBreakpoint payload = some (type, address, size)) : 0 < size := by
  unfold parseBreakpoint at h
  split at h
  next =>
    split at h
    next =>
      split at h
      next => cases h
      next hpos =>
        cases h
        omega
    next => cases h
  next => cases h

namespace Debugger

variable {accepts : DebugHooks → HookCall → Bool}

theorem refreshHooks_table (d : Debugger) : (d.refreshHooks accepts).1.table = d.table := rfl

theorem changeBreakpoint_derived {d : Debugger} (h : d.table.Derived) (payload : Packet) :
    (d.changeBreakpoint accepts payload).2.table.Derived := by
  unfold changeBreakpoint
  split
  next => exact h
  next type address size hparse =>
    split
    next => exact h
    next table hchange => exact h.change (parseBreakpoint_size hparse) hchange

theorem afterPackets_derived (packets : List Packet) : (afterPackets accepts packets).table.Derived := by
  have hfold : ∀ d : Debugger, d.table.Derived →
      (packets.foldl (fun d payload => (d.changeBreakpoint accepts payload).2) d).table.Derived := by
    induction packets with
    | nil => exact fun d h => h
    | cons payload packets ih => exact fun d h => ih _ (changeBreakpoint_derived h payload)
  exact hfold _ BreakpointTable.empty_derived

end Debugger

end

section

open IntervalMerges

namespace DebugHooks

variable {accepts : DebugHooks → HookCall → Bool}

/-- Calls that the engine accepts all take their effect. -/
theorem runCalls_completed {h : DebugHooks} {calls : List HookCall}
    (hdone : (h.runCalls accepts calls).2 = true) :
    (h.runCalls accepts calls).1 = calls.foldl accept h := by
  induction calls generalizing h with
  | nil => rfl
  | cons call calls ih =>
    unfold runCalls at hdone ⊢
    by_cases hcall : accepts h call = true
    · rw [if_pos hcall] at hdone ⊢
      exact ih hdone
    · rw [if_neg hcall] at hdone
      cases hdone

theorem foldl_removeRange (h : DebugHooks) (ranges : List (Int × Int)) :
    (ranges.map HookCall.removeRange).foldl accept h =
      { h with breakpoints := ranges.foldl OrderedDict.pop h.breakpoints } := by
  induction ranges generalizing h with
  | nil => rfl
  | cons range ranges ih => exact ih _

theorem foldl_addRange (h : DebugHooks) (ranges : List (Int × Int)) :
    (ranges.map HookCall.addRange).foldl accept h =
      { h with breakpoints := ranges.foldl (fun d range => d.insert range ()) h.breakpoints } := by
  induction ranges generalizing h with
  | nil => rfl
  | cons range ranges ih => exact ih _

theorem accept_setCode (h : DebugHooks) (enabled : Bool) :
    (if h.code = enabled then [] else [HookCall.setCode enabled]).foldl accept h = { h with code := enabled } := by
  split
  next heq => rw [← heq]; rfl
  next => rfl

theorem accept_flush (h : DebugHooks) (b : Bool) :
    (if b then [HookCall.flush] else []).foldl accept h = h := by
  split
  next => rfl
  next => rfl

theorem accept_setRead (h : DebugHooks) (old enabled : Bool) (hold : h.read = old) :
    (if old = enabled then [] else [HookCall.setRead enabled]).foldl accept h = { h with read := enabled } := by
  split
  next heq => rw [← heq, ← hold]; rfl
  next => rfl

theorem accept_setWrite (h : DebugHooks) (old enabled : Bool) (hold : h.write = old) :
    (if old = enabled then [] else [HookCall.setWrite enabled]).foldl accept h = { h with write := enabled } := by
  split
  next heq => rw [← heq, ← hold]; rfl
  next => rfl

end DebugHooks

namespace BreakpointTable

theorem breakpointLe_trans (a b c : Breakpoint) :
    breakpointLe a b = true → breakpointLe b c = true → breakpointLe a c = true := by
  unfold breakpointLe
  simp only [Bool.or_eq_true, Bool.and_eq_true, decide_eq_true_eq]
  omega

theorem breakpointLe_total (a b : Breakpoint) : (breakpointLe a b || breakpointLe b a) = true := by
  unfold breakpointLe
  simp only [Bool.or_eq_true, Bool.and_eq_true, decide_eq_true_eq]
  omega

theorem breakpointLe_begin {a b : Breakpoint} (h : breakpointLe a b = true) : a.1 ≤ b.1 := by
  unfold breakpointLe at h
  simp only [Bool.or_eq_true, Bool.and_eq_true, decide_eq_true_eq] at h
  omega

/-- The ranges lie apart and have the addresses of the breakpoints. -/
theorem breakpointRanges_apart {t : BreakpointTable} (h : t.Derived) :
    t.breakpointRanges.Pairwise Apart ∧ (∀ range ∈ t.breakpointRanges, range.1 ≤ range.2) ∧
    ∀ x, Covers t.breakpointRanges x ↔ ∃ b ∈ t.execBreakpoints.keys, b.Hits x := by
  have hsorted := List.pairwise_mergeSort breakpointLe_trans breakpointLe_total t.execBreakpoints.keys
  have hbegins : ((t.execBreakpoints.keys.mergeSort breakpointLe).map
      fun b => (b.1, b.1 + b.2.1 - 1)).Pairwise fun a b => a.1 ≤ b.1 :=
    List.pairwise_map.mpr (hsorted.imp fun hle => breakpointLe_begin hle)
  have hnonempty : ∀ range ∈ (t.execBreakpoints.keys.mergeSort breakpointLe).map
      (fun b => (b.1, b.1 + b.2.1 - 1)), range.1 ≤ range.2 := by
    intro range hrange
    obtain ⟨b, hb, rfl⟩ := List.mem_map.mp hrange
    have hsize := h.sizes b (List.mem_mergeSort.mp hb)
    show b.1 ≤ b.1 + b.2.1 - 1
    omega
  obtain ⟨hapart, hends, hcovers⟩ := mergeRanges_apart hnonempty hbegins
  refine ⟨hapart, hends, fun x => (hcovers x).trans ?_⟩
  have hhits : ∀ b : Breakpoint, InRange (b.1, b.1 + b.2.1 - 1) x ↔ b.Hits x := by
    intro b
    unfold InRange Breakpoint.Hits
    simp only
    omega
  constructor
  · rintro ⟨range, hrange, hx⟩
    obtain ⟨b, hb, rfl⟩ := List.mem_map.mp hrange
    exact ⟨b, List.mem_mergeSort.mp hb, (hhits b).mp hx⟩
  · rintro ⟨b, hb, hx⟩
    exact ⟨_, List.mem_map.mpr ⟨b, List.mem_mergeSort.mpr hb, rfl⟩, (hhits b).mpr hx⟩

end BreakpointTable

namespace Debugger

/-- What the code hooks are for a table. -/
structure HooksLaw (d : Debugger) : Prop where
  code : d.hooks.code = d.table.watching
  ranges : ∀ range, range ∈ d.hooks.breakpoints.keys ↔
    d.table.watching = false ∧ range ∈ d.table.breakpointRanges

theorem foldl_refreshCalls (d : Debugger) :
    d.refreshCalls.foldl DebugHooks.accept d.hooks =
      { code := d.table.watching
        read := !(d.table.readWatchpoints.keys.isEmpty && d.table.accessWatchpoints.keys.isEmpty)
        write := !(d.table.writeWatchpoints.keys.isEmpty && d.table.accessWatchpoints.keys.isEmpty)
        breakpoints :=
          ((if d.table.watching then [] else d.table.breakpointRanges).filter
            (· ∉ d.hooks.breakpoints.keys)).foldl (fun b range => b.insert range ())
            ((d.hooks.breakpoints.keys.filter
              (· ∉ if d.table.watching then [] else d.table.breakpointRanges)).foldl
                OrderedDict.pop d.hooks.breakpoints) } := by
  unfold refreshCalls
  simp only [List.foldl_append, DebugHooks.accept_setCode, DebugHooks.foldl_removeRange,
    DebugHooks.foldl_addRange, DebugHooks.accept_flush]
  rw [DebugHooks.accept_setRead _ _ _ rfl, DebugHooks.accept_setWrite _ _ _ rfl]

variable {accepts : DebugHooks → HookCall → Bool}

theorem refreshHooks_law {d : Debugger} (h : (d.refreshHooks accepts).2 = true) :
    (d.refreshHooks accepts).1.HooksLaw := by
  have hcompleted : (d.hooks.runCalls accepts d.refreshCalls).2 = true := h
  have hhooks : (d.refreshHooks accepts).1.hooks = d.refreshCalls.foldl DebugHooks.accept d.hooks :=
    DebugHooks.runCalls_completed hcompleted
  rw [foldl_refreshCalls] at hhooks
  refine ⟨by rw [hhooks]; rfl, fun range => ?_⟩
  rw [hhooks, refreshHooks_table]
  refine (OrderedDict.mem_foldl_insert _ _ (fun r => r) (fun _ => ()) range).trans ?_
  simp only [OrderedDict.mem_foldl_pop, List.mem_filter, decide_eq_true_eq, exists_eq_right]
  cases d.table.watching with
  | true => simp
  | false =>
    simp only [Bool.false_eq_true, if_false, true_and, not_and, not_not]
    constructor
    · rintro (⟨hin, himp⟩ | ⟨hin, _⟩)
      · exact himp hin
      · exact hin
    · intro hin
      by_cases hold : range ∈ d.hooks.breakpoints.keys
      · exact Or.inl ⟨hold, fun _ => hin⟩
      · exact Or.inr ⟨hin, hold⟩

/-- The ranges of the hooks neither overlap nor touch. -/
theorem HooksLaw.apart {d : Debugger} (h : d.HooksLaw) (hd : d.table.Derived) :
    d.hooks.breakpoints.keys.Pairwise fun a b => Apart a b ∨ Apart b a := by
  obtain ⟨hapart, _⟩ := BreakpointTable.breakpointRanges_apart hd
  refine List.Nodup.pairwise_of_forall_ne d.hooks.breakpoints.nodup ?_
  intro a ha b hb hne
  have ha := ((h.ranges a).mp ha).2
  have hb := ((h.ranges b).mp hb).2
  have hsym : d.table.breakpointRanges.Pairwise fun a b => Apart a b ∨ Apart b a :=
    hapart.imp fun hab => Or.inl hab
  have : Std.Symm fun a b : Int × Int => Apart a b ∨ Apart b a := ⟨fun _ _ hab => hab.symm⟩
  exact hsym.forall ha hb hne

/-- The hooks have the addresses of the breakpoints, and those of none while a watchpoint is set. -/
theorem HooksLaw.covers {d : Debugger} (h : d.HooksLaw) (hd : d.table.Derived) (x : Int) :
    Covers d.hooks.breakpoints.keys x ↔
      d.table.watching = false ∧ ∃ b ∈ d.table.execBreakpoints.keys, b.Hits x := by
  obtain ⟨_, _, hcovers⟩ := BreakpointTable.breakpointRanges_apart hd
  rw [← hcovers x]
  constructor
  · rintro ⟨range, hin, hx⟩
    have hrange := (h.ranges range).mp hin
    exact ⟨hrange.1, range, hrange.2, hx⟩
  · rintro ⟨hwatching, range, hin, hx⟩
    exact ⟨range, (h.ranges range).mpr ⟨hwatching, hin⟩, hx⟩

end Debugger

end

end Speakeasy
