import Speakeasy.ByteMemory
import Mathlib.Data.List.Basic
import Mathlib.Tactic.Ring

namespace Speakeasy

section

/-- The size of a pointer, and the address of the table. -/
structure OnexitEnv where
  ptrSize : Nat
  table : Nat

/-- The memory of the guest, and the heap blocks that the arrays of the table are in. -/
structure ExitGuest where
  memory : ByteMemory
  blocks : List (Nat × Nat)

/-- The variables of `call_onexit_functions`, while a function runs. -/
structure ExitFrame where
  first : Nat
  last : Nat
  saved : Nat × Nat
deriving DecidableEq

structure ExitMachine where
  guest : ExitGuest
  frame : Option ExitFrame

inductive ExitEvent
  | registered (function : Nat)
  | called (function : Nat)
  | finished
deriving DecidableEq, Repr

/-- The heap block of an array is at `array`, if the call needs one. -/
inductive ExitOp
  | initTable
  | register (function array : Nat)
  | execute
  | callbackReturn
  | guest (memory : ByteMemory)

namespace ExitGuest

variable (env : OnexitEnv) (g : ExitGuest)

def readPtr (a : Nat) : Nat := g.memory.readInt a env.ptrSize

/-- `write_ptr`, which fails for a value that does not fit. -/
def writePtr (a value : Nat) : Option ExitGuest :=
  if value < 256 ^ env.ptrSize then some { g with memory := g.memory.writeBytes a (toBytes env.ptrSize value) } else none

def mapped (a size : Nat) : Bool := g.blocks.any fun block => block.1 ≤ a ∧ a + size ≤ block.1 + block.2

/-- A read of an array, which fails outside the heap blocks. -/
def readEntry (a : Nat) : Option Nat := if g.mapped a env.ptrSize then some (g.readPtr env a) else none

def writeEntry (a value : Nat) : Option ExitGuest := if g.mapped a env.ptrSize then g.writePtr env a value else none

def heapAlloc (a size : Nat) : ExitGuest := { g with blocks := (a, size) :: g.blocks }

def heapFree (a : Nat) : ExitGuest := { g with blocks := g.blocks.filter fun block => block.1 ≠ a }

def readOnexitTable : Nat × Nat × Nat :=
  (g.readPtr env env.table, g.readPtr env (env.table + env.ptrSize), g.readPtr env (env.table + 2 * env.ptrSize))

def writeOnexitTable (first last limit : Nat) : Option ExitGuest := do
  let g ← g.writePtr env env.table first
  let g ← g.writePtr env (env.table + env.ptrSize) last
  g.writePtr env (env.table + 2 * env.ptrSize) limit

/-- The table has no array. -/
def noArray (first : Nat) : Prop := first = 0 ∨ first = 256 ^ env.ptrSize - 1

instance (first : Nat) : Decidable (noArray env first) := inferInstanceAs (Decidable (_ ∨ _))

def initializeOnexitTable : Option ExitGuest :=
  if (g.readOnexitTable env).1 = 0 then g.writeOnexitTable env 0 0 0 else some g

/-- The pointers of a table, which are null when it has no array. -/
def tablePointers : Nat × Nat × Nat :=
  if noArray env (g.readOnexitTable env).1 then (0, 0, 0) else g.readOnexitTable env

/-- The new array of a table that is full. -/
def growTable (first last array : Nat) : Option (ExitGuest × Nat × Nat × Nat) :=
  let count := (last - first) / env.ptrSize
  let size := max (count * 2) 32 * env.ptrSize
  let new := g.heapAlloc array size
  let pointers := (array, array + count * env.ptrSize, array + size)
  if count = 0 then some (new, pointers)
  else if new.mapped first (count * env.ptrSize) then
    let data := new.memory.readBytes first (count * env.ptrSize)
    some (heapFree { new with memory := new.memory.writeBytes array data } first, pointers)
  else none

def registerOnexitFunction (function array : Nat) : Option ExitGuest := do
  let (first, last, limit) := g.tablePointers env
  let (g, first, last, limit) ← if last = limit then g.growTable env first last array else some (g, first, last, limit)
  let g ← g.writeEntry env last function
  g.writeOnexitTable env first (last + env.ptrSize) limit

/-- The inner loop of `call_onexit_functions`, for an array that is not at the null address. -/
def skipCalled (first : Nat) : Nat → Nat → Option Nat
  | 0, _ => none
  | fuel + 1, last =>
    if first ≤ last then do
      let function ← g.readEntry env last
      if function = 0 then skipCalled first fuel (last - env.ptrSize) else some last
    else some last

/-- The next turn of the outer loop: the next call, or the end. -/
def nextCall (first last : Nat) (saved : Nat × Nat) : Option (ExitMachine × ExitEvent) := do
  let last ← g.skipCalled env first (last - env.ptrSize + 1) (last - env.ptrSize)
  if last < first then
    let g ← (g.heapFree first).writeOnexitTable env 0 0 0
    return (⟨g, none⟩, .finished)
  else
    let function ← g.readEntry env last
    let g ← g.writeEntry env last 0
    return (⟨g, some ⟨first, last, saved⟩⟩, .called function)

/-- `call_onexit_functions`, to its first call. -/
def executeOnexitTable : Option (ExitMachine × ExitEvent) :=
  let (first, last, _) := g.readOnexitTable env
  if noArray env first then some (⟨g, none⟩, .finished) else g.nextCall env first last (first, last)

/-- `call_onexit_functions`, from the return of a function on. -/
def resumeOnexit (frame : ExitFrame) : Option (ExitMachine × ExitEvent) :=
  let (first, last, _) := g.readOnexitTable env
  if (first, last) ≠ frame.saved then g.nextCall env first last (first, last)
  else g.nextCall env frame.first frame.last frame.saved

end ExitGuest

namespace ExitMachine

variable (env : OnexitEnv) (m : ExitMachine)

/-- What an operation does, with the events of the table. -/
def step : ExitOp → Option (ExitMachine × List ExitEvent)
  | .initTable => (m.guest.initializeOnexitTable env).map fun g => (⟨g, m.frame⟩, [])
  | .register function array =>
    (m.guest.registerOnexitFunction env function array).map fun g => (⟨g, m.frame⟩, [.registered function])
  | .execute =>
    match m.frame with
    | none => (m.guest.executeOnexitTable env).map fun r => (r.1, [r.2])
    | some _ => none
  | .callbackReturn =>
    match m.frame with
    | none => none
    | some frame => (m.guest.resumeOnexit env frame).map fun r => (r.1, [r.2])
  | .guest memory => some (⟨⟨memory, m.guest.blocks⟩, m.frame⟩, [])

end ExitMachine

end

section

/-- Two ranges have no byte in common. -/
def RangesApart (a size b size' : Nat) : Prop := a + size ≤ b ∨ b + size' ≤ a

/-- An array with some entries, which are null once their functions were called. -/
structure ArrayInv (env : OnexitEnv) (g : ExitGuest) (entries : List Nat) (first capacity : Nat) : Prop where
  pos : 0 < first
  fits : first + capacity * env.ptrSize < 256 ^ env.ptrSize
  len : entries.length ≤ capacity
  wide : 32 ≤ capacity
  block : (first, capacity * env.ptrSize) ∈ g.blocks
  apart : RangesApart env.table (3 * env.ptrSize) first (capacity * env.ptrSize)
  entry : ∀ i e, entries[i]? = some e → g.readPtr env (first + i * env.ptrSize) = e

/-- The table has an array. -/
structure TableInv (env : OnexitEnv) (g : ExitGuest) (entries : List Nat) (first capacity : Nat) : Prop extends
    ArrayInv env g entries first capacity where
  pointers : g.readOnexitTable env =
    (first, first + entries.length * env.ptrSize, first + capacity * env.ptrSize)

/-- The functions that are left, the last one first. -/
def pendingEntries (entries : List Nat) : List Nat := (entries.filter (· ≠ 0)).reverse

theorem pendingEntries_append (entries : List Nat) {function : Nat} (hf : function ≠ 0) :
    pendingEntries (entries ++ [function]) = function :: pendingEntries entries := by
  unfold pendingEntries
  rw [List.filter_append, List.filter_cons_of_pos (by simpa using hf), List.filter_nil, List.reverse_append]
  rfl

theorem pendingEntries_append_null (entries rest : List Nat) (hrest : ∀ e ∈ rest, e = 0) :
    pendingEntries (entries ++ rest) = pendingEntries entries := by
  unfold pendingEntries
  have hnil : rest.filter (· ≠ 0) = [] := List.filter_eq_nil_iff.mpr fun e he => by simpa using hrest e he
  rw [List.filter_append, hnil, List.append_nil]

/-- The entries from a position on are null. -/
def NullFrom (entries : List Nat) (j : Nat) : Prop := ∀ e ∈ entries.drop j, e = 0

theorem NullFrom.pending {entries : List Nat} {j : Nat} (h : NullFrom entries j) :
    pendingEntries entries = pendingEntries (entries.take j) := by
  have hsplit := pendingEntries_append_null (entries.take j) (entries.drop j) h
  rw [List.take_append_drop] at hsplit
  exact hsplit

theorem NullFrom.step {entries : List Nat} {j : Nat} (h : NullFrom entries (j + 1)) (hj : j < entries.length)
    (hnull : entries[j] = 0) : NullFrom entries j := by
  intro e he
  rw [List.drop_eq_getElem_cons hj] at he
  cases List.mem_cons.mp he with
  | inl heq => rw [heq]; exact hnull
  | inr hin => exact h e hin

/-- The last function that is left is called, and its entry becomes null. -/
theorem NullFrom.call {entries : List Nat} {j : Nat} (h : NullFrom entries (j + 1)) (hj : j < entries.length)
    (hf : entries[j] ≠ 0) : pendingEntries entries = entries[j] :: pendingEntries (entries.set j 0) ∧
      NullFrom (entries.set j 0) j := by
  have hset : (entries.set j 0).drop j = 0 :: entries.drop (j + 1) := by
    rw [List.drop_set, if_neg (Nat.lt_irrefl j), Nat.sub_self, List.drop_eq_getElem_cons hj, List.set_cons_zero]
  have hnull : NullFrom (entries.set j 0) j := by
    intro e he
    rw [hset] at he
    cases List.mem_cons.mp he with
    | inl heq => exact heq
    | inr hin => exact h e hin
  refine ⟨?_, hnull⟩
  rw [h.pending, hnull.pending, List.take_set_of_le (Nat.le_refl j), List.take_succ_eq_append_getElem hj]
  exact pendingEntries_append _ hf

variable {env : OnexitEnv} {g g' : ExitGuest} {entries : List Nat} {first capacity : Nat}

theorem readPtr_congr (a : Nat) (h : ∀ x, a ≤ x → x < a + env.ptrSize → g'.memory x = g.memory x) :
    g'.readPtr env a = g.readPtr env a := congrArg fromBytes (ByteMemory.readBytes_congr h)

theorem readOnexitTable_congr (h : ∀ x, env.table ≤ x → x < env.table + 3 * env.ptrSize → g'.memory x = g.memory x) :
    g'.readOnexitTable env = g.readOnexitTable env := by
  unfold ExitGuest.readOnexitTable
  rw [readPtr_congr env.table fun x hl hu => h x (by omega) (by omega),
    readPtr_congr (env.table + env.ptrSize) fun x hl hu => h x (by omega) (by omega),
    readPtr_congr (env.table + 2 * env.ptrSize) fun x hl hu => h x (by omega) (by omega)]

/-- An entry is inside the array. -/
theorem index_le {i n : Nat} (w : Nat) (h : i < n) : i * w + w ≤ n * w := by
  have hle := Nat.mul_le_mul_right w (show i + 1 ≤ n from h)
  rw [Nat.add_mul, Nat.one_mul] at hle
  exact hle

theorem ArrayInv.index_lt (h : ArrayInv env g entries first capacity) {i e : Nat} (hi : entries[i]? = some e) :
    i < capacity := by
  obtain ⟨hlt, _⟩ := List.getElem?_eq_some_iff.mp hi
  exact Nat.lt_of_lt_of_le hlt h.len

/-- The array stays when its bytes do. -/
theorem ArrayInv.congr (h : ArrayInv env g entries first capacity) (hblock : (first, capacity * env.ptrSize) ∈ g'.blocks)
    (harray : ∀ x, first ≤ x → x < first + capacity * env.ptrSize → g'.memory x = g.memory x) :
    ArrayInv env g' entries first capacity where
  pos := h.pos
  fits := h.fits
  len := h.len
  wide := h.wide
  block := hblock
  apart := h.apart
  entry i e hi := by
    have hle := index_le env.ptrSize (h.index_lt hi)
    exact (readPtr_congr _ fun x hl hu => harray x (by omega) (by omega)).trans (h.entry i e hi)

theorem readPtr_write_self (m : ByteMemory) (blocks : List (Nat × Nat)) (a : Nat) {value : Nat}
    (h : value < 256 ^ env.ptrSize) :
    ExitGuest.readPtr env ⟨m.writeBytes a (toBytes env.ptrSize value), blocks⟩ a = value := by
  have hself := ByteMemory.readBytes_writeBytes_self m a (toBytes env.ptrSize value)
  rw [toBytes_length] at hself
  show fromBytes ((m.writeBytes a (toBytes env.ptrSize value)).readBytes a env.ptrSize) = value
  rw [hself, fromBytes_toBytes_of_lt h]

theorem writePtr_some (g : ExitGuest) (a : Nat) {value : Nat} (h : value < 256 ^ env.ptrSize) :
    g.writePtr env a value = some ⟨g.memory.writeBytes a (toBytes env.ptrSize value), g.blocks⟩ := if_pos h

theorem writeBytes_ptr_outside (m : ByteMemory) (a value : Nat) {x : Nat} (h : x < a ∨ a + env.ptrSize ≤ x) :
    m.writeBytes a (toBytes env.ptrSize value) x = m x :=
  ByteMemory.writeBytes_outside (by rw [toBytes_length]; exact h)

/-- The three pointers are written, and nothing else. -/
theorem writeOnexitTable_spec (env : OnexitEnv) (g : ExitGuest) {a b c : Nat} (ha : a < 256 ^ env.ptrSize)
    (hb : b < 256 ^ env.ptrSize)
    (hc : c < 256 ^ env.ptrSize) : ∃ g', g.writeOnexitTable env a b c = some g' ∧ g'.blocks = g.blocks ∧
      g'.readOnexitTable env = (a, b, c) ∧
      ∀ x, x < env.table ∨ env.table + 3 * env.ptrSize ≤ x → g'.memory x = g.memory x := by
  let m₁ := g.memory.writeBytes env.table (toBytes env.ptrSize a)
  let m₂ := m₁.writeBytes (env.table + env.ptrSize) (toBytes env.ptrSize b)
  let m₃ := m₂.writeBytes (env.table + 2 * env.ptrSize) (toBytes env.ptrSize c)
  have hres : g.writeOnexitTable env a b c = some ⟨m₃, g.blocks⟩ := by
    unfold ExitGuest.writeOnexitTable
    rw [writePtr_some g env.table ha]
    show ((ExitGuest.writePtr env ⟨m₁, g.blocks⟩ (env.table + env.ptrSize) b) >>= _) = _
    rw [writePtr_some ⟨m₁, g.blocks⟩ _ hb]
    exact writePtr_some ⟨m₂, g.blocks⟩ _ hc
  refine ⟨⟨m₃, g.blocks⟩, hres, rfl, ?_, fun x hx => ?_⟩
  · have hone : ExitGuest.readPtr env ⟨m₃, g.blocks⟩ env.table = a := by
      refine Eq.trans (@readPtr_congr env ⟨m₁, g.blocks⟩ _ env.table fun x hl hu => ?_) (readPtr_write_self _ _ _ ha)
      exact (writeBytes_ptr_outside m₂ _ c (by omega)).trans (writeBytes_ptr_outside m₁ _ b (by omega))
    have htwo : ExitGuest.readPtr env ⟨m₃, g.blocks⟩ (env.table + env.ptrSize) = b := by
      refine Eq.trans (@readPtr_congr env ⟨m₂, g.blocks⟩ _ _ fun x hl hu => ?_) (readPtr_write_self _ _ _ hb)
      exact writeBytes_ptr_outside m₂ _ c (by omega)
    have hthree : ExitGuest.readPtr env ⟨m₃, g.blocks⟩ (env.table + 2 * env.ptrSize) = c := readPtr_write_self _ _ _ hc
    unfold ExitGuest.readOnexitTable
    rw [hone, htwo, hthree]
  · calc m₃ x = m₂ x := writeBytes_ptr_outside m₂ _ c (by omega)
      _ = m₁ x := writeBytes_ptr_outside m₁ _ b (by omega)
      _ = g.memory x := writeBytes_ptr_outside g.memory _ a (by omega)

theorem mapped_of_mem {a size base total : Nat} (hmem : (base, total) ∈ g.blocks) (hle : base ≤ a)
    (hu : a + size ≤ base + total) : g.mapped a size = true :=
  List.any_eq_true.mpr ⟨(base, total), hmem, decide_eq_true ⟨hle, hu⟩⟩

end

end Speakeasy
