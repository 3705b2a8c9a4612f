import Mathlib.Data.List.AList
import Mathlib.Data.List.Nodup

namespace Speakeasy

/-- `_closed_handles` has the last element first. -/
structure HandleAllocator where
  reuseClosedHandles : Bool
  handle : Nat := 0x80
  closedHandles : List Nat := []

namespace HandleAllocator

def allocateHandle (a : HandleAllocator) : Nat × HandleAllocator :=
  match a.closedHandles with
  | [] => (a.handle, { a with handle := a.handle + 4 })
  | handle :: closed => (handle, { a with closedHandles := closed })

def freeHandle (a : HandleAllocator) (handle : Nat) : HandleAllocator :=
  if a.reuseClosedHandles then { a with closedHandles := handle :: a.closedHandles } else a

end HandleAllocator

/-- `handle & HANDLE_MASK`. -/
def maskHandle (handle : Nat) : Nat := handle % 0x100000000

def currentProcessHandle : Nat := 0xFFFFFFFF
def currentThreadHandle : Nat := 0xFFFFFFFE

/-- `hasPseudo` says whether the table was made with `get_pseudo_handle_object`. -/
structure HandleTable where
  hasPseudo : Bool
  objects : AList fun _ : Nat => Nat

/-- The tables of one emulator, and what their objects and its pseudo handles are. An object without
`ref_cnt` has none here. -/
structure HandleState where
  allocator : HandleAllocator
  tables : Nat → HandleTable
  refCnt : Nat → Option Int
  currentProcess : Option Nat
  currentThread : Option Nat

namespace HandleState

def getPseudoHandleObject (s : HandleState) (handle : Nat) : Option Nat :=
  if maskHandle handle = currentProcessHandle then s.currentProcess
  else if maskHandle handle = currentThreadHandle then s.currentThread
  else none

/-- `self._pseudo(handle) if self._pseudo else None`. -/
def pseudo (s : HandleState) (t handle : Nat) : Option Nat :=
  if (s.tables t).hasPseudo then s.getPseudoHandleObject handle else none

def setObjects (s : HandleState) (t : Nat) (objects : AList fun _ : Nat => Nat) : HandleState :=
  { s with tables := Function.update s.tables t { s.tables t with objects := objects } }

def addRef (s : HandleState) (obj : Nat) (n : Int) : HandleState :=
  { s with refCnt := Function.update s.refCnt obj ((s.refCnt obj).map (· + n)) }

def newHandle (s : HandleState) (t obj : Nat) : HandleState × Nat :=
  let (handle, allocator) := s.allocator.allocateHandle
  let s := { s with allocator := allocator }
  ((s.setObjects t ((s.tables t).objects.insert handle obj)).addRef obj 1, handle)

def get (s : HandleState) (t handle : Nat) : Option Nat :=
  match s.pseudo t handle with
  | some obj => some obj
  | none => (s.tables t).objects.lookup (maskHandle handle)

/-- `release` is `dec_ref`. -/
def close (s : HandleState) (t handle : Nat) : HandleState × Bool :=
  if (s.pseudo t handle).isSome then (s, true)
  else
    match (s.tables t).objects.lookup (maskHandle handle) with
    | none => (s, false)
    | some obj =>
      let s := s.setObjects t ((s.tables t).objects.erase (maskHandle handle))
      let s := { s with allocator := s.allocator.freeHandle (maskHandle handle) }
      (s.addRef obj (-1), true)

/-- A new emulator, whose tables are empty. -/
def initial (reuse : Bool) (hasPseudo : Nat → Bool) (refCnt : Nat → Option Int)
    (process thread : Option Nat) : HandleState where
  allocator := { reuseClosedHandles := reuse }
  tables t := ⟨hasPseudo t, ∅⟩
  refCnt := refCnt
  currentProcess := process
  currentThread := thread

end HandleState

/-- `allocate` is a handle value that goes to no table, such as the one of a console. -/
inductive HandleOp
  | newHandle (t obj : Nat)
  | close (t handle : Nat)
  | allocate
  | setCurrent (process thread : Option Nat)
deriving DecidableEq, Repr

inductive HandleResult
  | handle (h : Nat)
  | closed (b : Bool)
  | done
deriving DecidableEq, Repr

namespace HandleState

def step (s : HandleState) : HandleOp → HandleState × HandleResult
  | .newHandle t obj => ((s.newHandle t obj).1, .handle (s.newHandle t obj).2)
  | .close t handle => ((s.close t handle).1, .closed (s.close t handle).2)
  | .allocate =>
    ({ s with allocator := s.allocator.allocateHandle.2 }, .handle s.allocator.allocateHandle.1)
  | .setCurrent process thread =>
    ({ s with currentProcess := process, currentThread := thread }, .done)

end HandleState

/-- The calls with their results, the last call first. -/
abbrev HandleHistory := List (HandleOp × HandleResult)

inductive HandleRun (s₀ : HandleState) : HandleState → HandleHistory → Prop
  | start : HandleRun s₀ s₀ []
  | next {s : HandleState} {history : HandleHistory} (op : HandleOp) : HandleRun s₀ s history →
      HandleRun s₀ (s.step op).1 ((op, (s.step op).2) :: history)

/-- The handle is the one of the argument, whose bits above bit 31 do not count. -/
def Names (t handle : Nat) (x : Nat × Nat × Nat) : Prop :=
  x.1 = t ∧ maskHandle x.2.1 = maskHandle handle

instance (t handle : Nat) (x : Nat × Nat × Nat) : Decidable (Names t handle x) :=
  inferInstanceAs (Decidable (_ ∧ _))

/-- The open handles that the calls leave, each with its table and its object. -/
def openHandles : HandleHistory → List (Nat × Nat × Nat)
  | [] => []
  | (.newHandle t obj, .handle h) :: history => (t, h, obj) :: openHandles history
  | (.close t handle, _) :: history => (openHandles history).filter fun x => ¬ Names t handle x
  | _ :: history => openHandles history

/-- The number of open handles of an object. -/
def handleCount (history : HandleHistory) (obj : Nat) : Int :=
  (openHandles history).countP fun x => x.2.2 = obj

/-- The tables hold exactly the open handles of the calls. -/
structure HandlesConsistent (s₀ s : HandleState) (history : HandleHistory) : Prop where
  distinct : ((openHandles history).map fun x => x.2.1).Nodup
  get_open : ∀ t h obj, (t, h, obj) ∈ openHandles history →
    ∀ handle, maskHandle handle = maskHandle h → s.get t handle = some obj
  get_closed : ∀ t handle, (∀ x ∈ openHandles history, ¬ Names t handle x) →
    s.get t handle = s.pseudo t handle
  refs : ∀ obj, s.refCnt obj = (s₀.refCnt obj).map (· + handleCount history obj)
  close_open : ∀ t h obj, (t, h, obj) ∈ openHandles history →
    ∀ handle, maskHandle handle = maskHandle h → (s.close t handle).2 = true
  close_closed : ∀ t handle, (∀ x ∈ openHandles history, ¬ Names t handle x) →
    s.pseudo t handle = none → s.close t handle = (s, false)
  close_pseudo : ∀ t handle obj, s.pseudo t handle = some obj → s.close t handle = (s, true)

section

namespace HandleAllocator

/-- The values that are live, and those that may be given out again, are multiples of 4 below the
counter, and apart. -/
structure Good (a : HandleAllocator) (live : List Nat) : Prop where
  start_le : 0x80 ≤ a.handle
  aligned : a.handle % 4 = 0
  live_lt : ∀ h ∈ live, 0x80 ≤ h ∧ h < a.handle ∧ h % 4 = 0
  closed_lt : ∀ h ∈ a.closedHandles, 0x80 ≤ h ∧ h < a.handle ∧ h % 4 = 0
  closed_nodup : a.closedHandles.Nodup
  apart : ∀ h ∈ a.closedHandles, h ∉ live

theorem Good.mono {a : HandleAllocator} {live live' : List Nat} (h : a.Good live)
    (hsub : ∀ x ∈ live', x ∈ live) : a.Good live' where
  start_le := h.start_le
  aligned := h.aligned
  live_lt x hx := h.live_lt x (hsub x hx)
  closed_lt := h.closed_lt
  closed_nodup := h.closed_nodup
  apart x hx hlive := h.apart x hx (hsub x hlive)

theorem allocateHandle_nil {a : HandleAllocator} (h : a.closedHandles = []) :
    a.allocateHandle = (a.handle, { a with handle := a.handle + 4 }) := by
  unfold allocateHandle
  rw [h]

theorem allocateHandle_cons {a : HandleAllocator} {handle : Nat} {closed : List Nat}
    (h : a.closedHandles = handle :: closed) :
    a.allocateHandle = (handle, { a with closedHandles := closed }) := by
  unfold allocateHandle
  rw [h]

/-- A value that is given out is not live. -/
theorem Good.allocate {a : HandleAllocator} {live : List Nat} (h : a.Good live) :
    a.allocateHandle.1 ∉ live ∧ a.allocateHandle.2.Good (a.allocateHandle.1 :: live) := by
  cases hclosed : a.closedHandles with
  | nil =>
    rw [allocateHandle_nil hclosed]
    refine ⟨fun hmem => absurd (h.live_lt _ hmem).2.1 (Nat.lt_irrefl _), ?_⟩
    have hle := h.start_le
    have haligned := h.aligned
    refine ⟨?_, ?_, ?_, ?_, h.closed_nodup, ?_⟩
    · show 0x80 ≤ a.handle + 4
      omega
    · show (a.handle + 4) % 4 = 0
      omega
    · intro x hx
      show 0x80 ≤ x ∧ x < a.handle + 4 ∧ x % 4 = 0
      rcases List.mem_cons.mp hx with rfl | hx
      · exact ⟨hle, Nat.lt_add_of_pos_right (by decide), haligned⟩
      · have := h.live_lt x hx
        omega
    · intro x hx
      have hx : x ∈ a.closedHandles := hx
      rw [hclosed] at hx
      cases hx
    · intro x hx
      have hx : x ∈ a.closedHandles := hx
      rw [hclosed] at hx
      cases hx
  | cons handle closed =>
    rw [allocateHandle_cons hclosed]
    have hnodup := h.closed_nodup
    rw [hclosed] at hnodup
    obtain ⟨hne, hnodup⟩ := List.nodup_cons.mp hnodup
    have hmem : ∀ x ∈ closed, x ∈ a.closedHandles := fun x hx =>
      hclosed ▸ List.mem_cons_of_mem _ hx
    have hhere : handle ∈ a.closedHandles := hclosed ▸ List.mem_cons_self
    refine ⟨h.apart handle hhere, h.start_le, h.aligned, ?_, ?_, hnodup, ?_⟩
    · intro x hx
      rcases List.mem_cons.mp hx with rfl | hx
      · exact h.closed_lt x hhere
      · exact h.live_lt x hx
    · intro x hx
      exact h.closed_lt x (hmem x hx)
    · intro x hx hlive
      rcases List.mem_cons.mp hlive with rfl | hlive
      · exact hne hx
      · exact h.apart x (hmem x hx) hlive

theorem allocateHandle_le (a : HandleAllocator) : a.handle ≤ a.allocateHandle.2.handle := by
  unfold allocateHandle
  cases a.closedHandles with
  | nil => exact Nat.le_add_right _ _
  | cons handle closed => exact Nat.le_refl _

theorem freeHandle_handle (a : HandleAllocator) (h : Nat) : (a.freeHandle h).handle = a.handle := by
  unfold freeHandle
  split <;> rfl

theorem Good.free {a : HandleAllocator} {live live' : List Nat} (h : a.Good live) {x : Nat}
    (hx : x ∈ live) (hx' : x ∉ live') (hsub : ∀ y ∈ live', y ∈ live) : (a.freeHandle x).Good live' := by
  unfold freeHandle
  split
  · refine ⟨h.start_le, h.aligned, fun y hy => h.live_lt y (hsub y hy), ?_, ?_, ?_⟩
    · intro y hy
      rcases List.mem_cons.mp hy with rfl | hy
      · exact h.live_lt y hx
      · exact h.closed_lt y hy
    · exact List.nodup_cons.mpr ⟨fun hmem => h.apart x hmem hx, h.closed_nodup⟩
    · intro y hy hlive
      rcases List.mem_cons.mp hy with rfl | hy
      · exact hx' hlive
      · exact h.apart y hy (hsub y hlive)
  · exact h.mono hsub

end HandleAllocator

namespace HandleState

@[simp] theorem setObjects_allocator (s : HandleState) (t : Nat) (objects : AList fun _ : Nat => Nat) :
    (s.setObjects t objects).allocator = s.allocator := rfl

@[simp] theorem setObjects_refCnt (s : HandleState) (t : Nat) (objects : AList fun _ : Nat => Nat) :
    (s.setObjects t objects).refCnt = s.refCnt := rfl

theorem setObjects_self (s : HandleState) (t : Nat) (objects : AList fun _ : Nat => Nat) :
    ((s.setObjects t objects).tables t).objects = objects := by
  simp [setObjects]

theorem setObjects_other (s : HandleState) {t t' : Nat} (objects : AList fun _ : Nat => Nat)
    (h : t' ≠ t) : (s.setObjects t objects).tables t' = s.tables t' := by
  simp [setObjects, h]

@[simp] theorem addRef_tables (s : HandleState) (obj : Nat) (n : Int) :
    (s.addRef obj n).tables = s.tables := rfl

@[simp] theorem addRef_allocator (s : HandleState) (obj : Nat) (n : Int) :
    (s.addRef obj n).allocator = s.allocator := rfl

theorem addRef_refCnt (s : HandleState) (obj : Nat) (n : Int) (obj' : Nat) :
    (s.addRef obj n).refCnt obj' = (s.refCnt obj').map (· + if obj' = obj then n else 0) := by
  unfold addRef
  by_cases h : obj' = obj
  · simp [h]
  · simp [h]

/-- The tables and the counts say what the calls opened. -/
structure Inv (s₀ s : HandleState) (history : HandleHistory) : Prop where
  good : s.allocator.Good ((openHandles history).map fun x => x.2.1)
  distinct : ((openHandles history).map fun x => x.2.1).Nodup
  lookup : ∀ t h obj, (s.tables t).objects.lookup h = some obj ↔ (t, h, obj) ∈ openHandles history
  refs : ∀ obj, s.refCnt obj = (s₀.refCnt obj).map (· + handleCount history obj)

theorem inv_initial (reuse : Bool) (hasPseudo : Nat → Bool) (refCnt : Nat → Option Int)
    (process thread : Option Nat) : Inv (initial reuse hasPseudo refCnt process thread)
      (initial reuse hasPseudo refCnt process thread) [] where
  good := {
    start_le := Nat.le_refl _
    aligned := show 0x80 % 4 = 0 from rfl
    live_lt := by simp [openHandles]
    closed_lt := by simp [initial]
    closed_nodup := List.nodup_nil
    apart := by simp [initial] }
  distinct := List.nodup_nil
  lookup t h obj := by simp [initial, openHandles]
  refs obj := by simp [handleCount, openHandles]

variable {s₀ s : HandleState} {history : HandleHistory}

theorem Inv.lt (h : Inv s₀ s history) {x : Nat × Nat × Nat} (hx : x ∈ openHandles history) :
    0x80 ≤ x.2.1 ∧ x.2.1 < s.allocator.handle ∧ x.2.1 % 4 = 0 :=
  h.good.live_lt _ (List.mem_map_of_mem hx)

theorem Inv.newHandle (h : Inv s₀ s history) (t obj : Nat) :
    Inv s₀ (s.step (.newHandle t obj)).1
      ((.newHandle t obj, (s.step (.newHandle t obj)).2) :: history) := by
  obtain ⟨hfresh, hgood⟩ := h.good.allocate
  refine ⟨hgood, List.nodup_cons.mpr ⟨hfresh, h.distinct⟩, ?_, ?_⟩
  · intro t' handle obj'
    show ((HandleState.setObjects _ t
      ((s.tables t).objects.insert s.allocator.allocateHandle.1 obj)).tables t').objects.lookup handle =
        some obj' ↔ (t', handle, obj') ∈ (t, s.allocator.allocateHandle.1, obj) :: openHandles history
    rw [List.mem_cons, ← h.lookup]
    by_cases ht : t' = t
    · subst ht
      rw [setObjects_self]
      by_cases hh : handle = s.allocator.allocateHandle.1
      · subst hh
        rw [AList.lookup_insert]
        have hnone : ¬ (s.tables t').objects.lookup s.allocator.allocateHandle.1 = some obj' := by
          rw [h.lookup]
          intro hmem
          exact hfresh (List.mem_map_of_mem (f := fun x : Nat × Nat × Nat => x.2.1) hmem)
        simp only [hnone, or_false, Option.some.injEq, Prod.mk.injEq, true_and]
        exact eq_comm
      · rw [AList.lookup_insert_ne hh]
        simp [hh]
    · rw [setObjects_other _ _ ht]
      simp [ht]
  · intro obj'
    show (HandleState.addRef _ obj 1).refCnt obj' = _
    rw [addRef_refCnt]
    show (s.refCnt obj').map _ = _
    rw [h.refs, Option.map_map]
    have hcount : handleCount ((.newHandle t obj, .handle s.allocator.allocateHandle.1) :: history) obj' =
        handleCount history obj' + if obj' = obj then 1 else 0 := by
      rw [handleCount, openHandles, List.countP_cons, handleCount]
      by_cases hobj : obj' = obj
      · simp [hobj]
      · have hobj' : ¬ obj = obj' := fun heq => hobj heq.symm
        simp [hobj, hobj']
    show _ = (s₀.refCnt obj').map
      (· + handleCount ((.newHandle t obj, .handle s.allocator.allocateHandle.1) :: history) obj')
    rw [hcount]
    congr 1
    funext n
    exact Int.add_assoc ..

/-- A handle that is open is closed, and no other. -/
theorem Inv.close_open (h : Inv s₀ s history) (hbound : s.allocator.handle ≤ 0x100000000)
    {t handle obj : Nat} (hmem : (t, maskHandle handle, obj) ∈ openHandles history)
    (hpseudo : s.pseudo t handle = none) :
    (s.close t handle).2 = true ∧ Inv s₀ (s.step (.close t handle)).1
      ((.close t handle, (s.step (.close t handle)).2) :: history) := by
  have hlookup := (h.lookup t _ obj).mpr hmem
  have hclose : s.close t handle =
      (HandleState.addRef { s.setObjects t ((s.tables t).objects.erase (maskHandle handle)) with
        allocator := s.allocator.freeHandle (maskHandle handle) } obj (-1), true) := by
    unfold close
    rw [hpseudo, hlookup]
    rfl
  have hmask : ∀ x ∈ openHandles history, maskHandle x.2.1 = x.2.1 := by
    intro x hx
    have := h.lt hx
    unfold maskHandle
    omega
  have hnames : ∀ x ∈ openHandles history, Names t handle x ↔ x = (t, maskHandle handle, obj) := by
    intro x hx
    constructor
    · rintro ⟨ht, hm⟩
      rw [hmask x hx] at hm
      have hx' := (h.lookup x.1 x.2.1 x.2.2).mpr hx
      rw [ht, hm, hlookup] at hx'
      obtain ⟨x1, x2, x3⟩ := x
      simp only at ht hm hx'
      rw [ht, hm, Option.some.inj hx']
    · rintro rfl
      exact ⟨rfl, hmask _ hx⟩
  have hopen : openHandles ((.close t handle, .closed true) :: history) =
      (openHandles history).filter fun x => ¬ x = (t, maskHandle handle, obj) := by
    rw [openHandles]
    apply List.filter_congr
    intro x hx
    rw [decide_eq_decide, hnames x hx]
  have hnodup : (openHandles history).Nodup := List.Nodup.of_map _ h.distinct
  have hsub : ∀ y ∈ ((openHandles history).filter fun x => ¬ x = (t, maskHandle handle, obj)).map
      (fun x => x.2.1), y ∈ (openHandles history).map fun x => x.2.1 := by
    intro y hy
    obtain ⟨x, hx, rfl⟩ := List.mem_map.mp hy
    exact List.mem_map_of_mem (List.mem_of_mem_filter hx)
  refine ⟨by rw [hclose], ?_⟩
  show Inv s₀ (s.close t handle).1 ((.close t handle, .closed (s.close t handle).2) :: history)
  rw [hclose]
  refine ⟨?_, ?_, ?_, ?_⟩
  · rw [hopen]
    apply h.good.free (List.mem_map_of_mem (f := fun x : Nat × Nat × Nat => x.2.1) hmem) _ hsub
    intro hy
    obtain ⟨x, hx, heq⟩ := List.mem_map.mp hy
    rw [List.mem_filter, decide_eq_true_eq] at hx
    exact hx.2 (List.inj_on_of_nodup_map h.distinct hx.1 hmem heq)
  · rw [hopen]
    exact h.distinct.sublist (List.Sublist.map _ List.filter_sublist)
  · intro t' h' obj'
    rw [hopen, List.mem_filter, ← h.lookup, decide_eq_true_eq]
    show ((s.setObjects t _).tables t').objects.lookup h' = some obj' ↔ _
    by_cases ht : t' = t
    · subst ht
      rw [setObjects_self]
      by_cases hh : h' = maskHandle handle
      · subst hh
        rw [AList.lookup_erase, hlookup]
        constructor
        · intro hnone
          cases hnone
        · rintro ⟨hsome, hne⟩
          cases hsome
          exact absurd rfl hne
      · rw [AList.lookup_erase_ne hh]
        simp [hh]
    · rw [setObjects_other _ _ ht]
      simp [ht]
  · intro obj'
    show (HandleState.addRef _ obj (-1)).refCnt obj' = _
    rw [addRef_refCnt]
    show (s.refCnt obj').map _ = _
    rw [h.refs, Option.map_map]
    have hcount : handleCount history obj' =
        handleCount ((.close t handle, .closed true) :: history) obj' +
          if obj' = obj then 1 else 0 := by
      have herase : ((openHandles history).filter fun x => ¬ x = (t, maskHandle handle, obj)) =
          (openHandles history).erase (t, maskHandle handle, obj) := by
        rw [hnodup.erase_eq_filter]
        apply List.filter_congr
        intro x _
        simp [bne, beq_eq_decide]
      rw [handleCount, handleCount, hopen, herase, (List.perm_cons_erase hmem).countP_eq,
        List.countP_cons]
      by_cases hobj : obj' = obj
      · simp [hobj]
      · have hobj' : ¬ obj = obj' := fun heq => hobj heq.symm
        simp [hobj, hobj']
    rw [hcount]
    congr 1
    funext n
    simp only [Function.comp_apply]
    split <;> omega

theorem close_not_open {t handle : Nat} (hpseudo : s.pseudo t handle = none)
    (hnone : (s.tables t).objects.lookup (maskHandle handle) = none) :
    s.close t handle = (s, false) := by
  unfold close
  rw [hpseudo, hnone]
  rfl

end HandleState

end

end Speakeasy
