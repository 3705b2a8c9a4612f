import Speakeasy.OnexitTables

namespace Speakeasy

section

variable {env : OnexitEnv} {g g' : ExitGuest} {entries entries' : List Nat} {first capacity : Nat}

namespace ArrayInv

theorem readEntry (h : ArrayInv env g entries first capacity) {i e : Nat} (hi : entries[i]? = some e) :
    g.readEntry env (first + i * env.ptrSize) = some e := by
  have hle := index_le env.ptrSize (h.index_lt hi)
  unfold ExitGuest.readEntry
  rw [if_pos (mapped_of_mem h.block (by omega) (by omega)), h.entry i e hi]

/-- A write of one entry, also of a new one. -/
theorem writeEntry (h : ArrayInv env g entries first capacity) {i value : Nat} (hi : i < capacity)
    (hvalue : value < 256 ^ env.ptrSize) (hlen : entries'.length ≤ capacity) (hself : ∀ e, entries'[i]? = some e → value = e)
    (hother : ∀ k e, k ≠ i → entries'[k]? = some e → entries[k]? = some e) :
    ∃ g', g.writeEntry env (first + i * env.ptrSize) value = some g' ∧ ArrayInv env g' entries' first capacity ∧
      g'.blocks = g.blocks ∧ ∀ x, x < first ∨ first + capacity * env.ptrSize ≤ x → g'.memory x = g.memory x := by
  have hle := index_le env.ptrSize hi
  refine ⟨⟨g.memory.writeBytes (first + i * env.ptrSize) (toBytes env.ptrSize value), g.blocks⟩, ?_, ?_, rfl, fun x hx => ?_⟩
  · unfold ExitGuest.writeEntry
    rw [if_pos (mapped_of_mem h.block (by omega) (by omega))]
    exact writePtr_some g _ hvalue
  · refine ⟨h.pos, h.fits, hlen, h.wide, h.block, h.apart, fun k e hk => ?_⟩
    by_cases hki : k = i
    · rw [hki]
      rw [hki] at hk
      exact (readPtr_write_self _ _ _ hvalue).trans (hself e hk)
    · refine (readPtr_congr _ fun x hl hu => writeBytes_ptr_outside _ _ _ ?_).trans (h.entry k e (hother k e hki hk))
      by_cases hlt : k < i
      · have hbefore := index_le env.ptrSize hlt
        omega
      · have hafter := index_le env.ptrSize (show i < k by omega)
        omega
  · exact writeBytes_ptr_outside _ _ _ (by omega)

/-- The array with the pointers of the table is the table. -/
theorem writeTable (h : ArrayInv env g entries first capacity) :
    ∃ g', g.writeOnexitTable env first (first + entries.length * env.ptrSize) (first + capacity * env.ptrSize) = some g' ∧
      TableInv env g' entries first capacity ∧ g'.blocks = g.blocks := by
  have hfits := h.fits
  have hle := Nat.mul_le_mul_right env.ptrSize h.len
  obtain ⟨g', hres, hblocks, hpointers, hframe⟩ := writeOnexitTable_spec env g
    (show first < 256 ^ env.ptrSize by omega) (show first + entries.length * env.ptrSize < 256 ^ env.ptrSize by omega)
    hfits
  refine ⟨g', hres, ⟨h.congr (hblocks ▸ h.block) fun x hl hu => hframe x ?_, hpointers⟩, hblocks⟩
  have hapart := h.apart
  unfold RangesApart at hapart
  omega

/-- A new function. -/
theorem append (h : ArrayInv env g entries first capacity) (hroom : entries.length < capacity) {function : Nat}
    (hfunction : function < 256 ^ env.ptrSize) :
    ∃ g₁ g', g.writeEntry env (first + entries.length * env.ptrSize) function = some g₁ ∧
      g₁.writeOnexitTable env first (first + entries.length * env.ptrSize + env.ptrSize)
        (first + capacity * env.ptrSize) = some g' ∧
      TableInv env g' (entries ++ [function]) first capacity ∧ g'.blocks = g.blocks := by
  have hlen : (entries ++ [function]).length = entries.length + 1 := by
    rw [List.length_append, List.length_singleton]
  obtain ⟨g₁, hres, hinv, hblocks, _⟩ := @writeEntry env g entries (entries ++ [function]) first capacity h
    entries.length function hroom hfunction (by omega)
    (fun e he => by
      rw [List.getElem?_append_right (Nat.le_refl _), Nat.sub_self] at he
      exact Option.some.inj he)
    (fun k e hk he => by
      obtain ⟨hlt, _⟩ := List.getElem?_eq_some_iff.mp he
      rw [List.getElem?_append_left (by omega)] at he
      exact he)
  obtain ⟨g', hres', htable, hblocks'⟩ := hinv.writeTable
  rw [hlen, Nat.add_mul, Nat.one_mul, ← Nat.add_assoc] at hres'
  exact ⟨g₁, g', hres, hres', htable, hblocks'.trans hblocks⟩

end ArrayInv

/-- What the heap guarantees for a new block: it has an address, and no byte of the table or of another block. -/
structure FreshBlock (env : OnexitEnv) (g : ExitGuest) (array size : Nat) : Prop where
  pos : 0 < array
  fits : array + size < 256 ^ env.ptrSize
  table : RangesApart env.table (3 * env.ptrSize) array size
  blocks : ∀ block ∈ g.blocks, RangesApart block.1 block.2 array size

/-- The first array. -/
theorem growTable_empty {array : Nat} (hfresh : FreshBlock env g array (32 * env.ptrSize)) :
    ∃ g', g.growTable env 0 0 array = some (g', array, array + 0 * env.ptrSize, array + 32 * env.ptrSize) ∧
      ArrayInv env g' [] array 32 := by
  refine ⟨g.heapAlloc array (32 * env.ptrSize), ?_, hfresh.pos, hfresh.fits, Nat.zero_le _, Nat.le_refl _,
    List.mem_cons_self, hfresh.table, fun i e hi => by cases hi⟩
  unfold ExitGuest.growTable
  rw [Nat.sub_self, Nat.zero_div]
  rfl

/-- A larger array, with the entries of the old one. -/
theorem growTable_full (hw : 0 < env.ptrSize) (h : ArrayInv env g entries first capacity)
    (hfull : entries.length = capacity) {array : Nat}
    (hfresh : FreshBlock env g array (max (capacity * 2) 32 * env.ptrSize)) :
    ∃ g', g.growTable env first (first + capacity * env.ptrSize) array =
        some (g', array, array + entries.length * env.ptrSize, array + max (capacity * 2) 32 * env.ptrSize) ∧
      ArrayInv env g' entries array (max (capacity * 2) 32) := by
  have hwide := h.wide
  have hcount : (first + capacity * env.ptrSize - first) / env.ptrSize = capacity := by
    rw [Nat.add_sub_cancel_left, Nat.mul_div_cancel _ hw]
  have happart := hfresh.blocks _ h.block
  unfold RangesApart at happart
  have hsize : 0 < capacity * env.ptrSize := Nat.mul_pos (by omega) hw
  have hgrow : capacity * env.ptrSize ≤ max (capacity * 2) 32 * env.ptrSize := Nat.mul_le_mul_right _ (by omega)
  have hne : array ≠ first := by
    intro heq
    rw [heq] at happart
    simp only at happart
    omega
  let data := g.memory.readBytes first (capacity * env.ptrSize)
  have hdata : data.length = capacity * env.ptrSize := ByteMemory.readBytes_length _ _ _
  refine ⟨⟨g.memory.writeBytes array data,
    ((array, max (capacity * 2) 32 * env.ptrSize) :: g.blocks).filter fun block => block.1 ≠ first⟩, ?_, hfresh.pos,
    hfresh.fits, by omega, by omega, ?_, hfresh.table, fun i e hi => ?_⟩
  · unfold ExitGuest.growTable
    simp only [hcount, hfull]
    rw [if_neg (by omega), if_pos (mapped_of_mem (List.mem_cons_of_mem _ h.block) (Nat.le_refl _) (Nat.le_refl _))]
    rfl
  · exact List.mem_filter.mpr ⟨List.mem_cons_self, decide_eq_true hne⟩
  · have hle := index_le env.ptrSize (h.index_lt hi)
    rw [← h.entry i e hi]
    have hread : (g.memory.writeBytes array data).readBytes (array + i * env.ptrSize) env.ptrSize =
        g.memory.readBytes (first + i * env.ptrSize) env.ptrSize := by
      rw [ByteMemory.readBytes_writeBytes (by omega)]
      have hholds : g.memory.Holds first data := by
        unfold ByteMemory.Holds
        rw [hdata]
      exact (hholds.part (by omega)).symm
    exact congrArg fromBytes hread

end

section

variable {env : OnexitEnv} {g g' : ExitGuest} {entries : List Nat} {first capacity : Nat}

/-- The size of the block that the next registration needs. -/
def growSize (env : OnexitEnv) (g : ExitGuest) : Nat :=
  max (((g.tablePointers env).2.1 - (g.tablePointers env).1) / env.ptrSize * 2) 32 * env.ptrSize

/-- The table has no array, or has one with some entries. -/
def TableState (env : OnexitEnv) (g : ExitGuest) (pending : List Nat) : Prop :=
  (ExitGuest.noArray env (g.readOnexitTable env).1 ∧ pending = []) ∨
    ∃ entries first capacity, TableInv env g entries first capacity ∧ pending = pendingEntries entries

theorem TableInv.hasArray (hw : 0 < env.ptrSize) (h : TableInv env g entries first capacity) :
    ¬ExitGuest.noArray env first := by
  have hpos := h.pos
  have hfits := h.fits
  have hsize : 0 < capacity * env.ptrSize := Nat.mul_pos (by have hwide := h.wide; omega) hw
  unfold ExitGuest.noArray
  omega

theorem TableInv.tablePointers (hw : 0 < env.ptrSize) (h : TableInv env g entries first capacity) :
    g.tablePointers env = (first, first + entries.length * env.ptrSize, first + capacity * env.ptrSize) := by
  unfold ExitGuest.tablePointers
  rw [h.pointers, if_neg (h.hasArray hw)]

/-- A registration adds the function, and keeps the earlier ones. -/
theorem register_table (hw : 0 < env.ptrSize) (h : TableInv env g entries first capacity) {function array : Nat}
    (hf : function < 256 ^ env.ptrSize) (hfresh : FreshBlock env g array (growSize env g)) :
    ∃ g' first' capacity', g.registerOnexitFunction env function array = some g' ∧
      TableInv env g' (entries ++ [function]) first' capacity' := by
  have hwide := h.wide
  have hcount : (first + entries.length * env.ptrSize - first) / env.ptrSize = entries.length := by
    rw [Nat.add_sub_cancel_left, Nat.mul_div_cancel _ hw]
  unfold growSize at hfresh
  rw [h.tablePointers hw] at hfresh
  simp only [hcount] at hfresh
  unfold ExitGuest.registerOnexitFunction
  rw [h.tablePointers hw]
  by_cases hfull : entries.length = capacity
  · rw [hfull] at hfresh
    obtain ⟨g₁, hgrow, hinv⟩ := growTable_full hw h.toArrayInv hfull hfresh
    obtain ⟨g₂, g', hwrite, htable, hinv', _⟩ := hinv.append (by omega) hf
    refine ⟨g', array, max (capacity * 2) 32, ?_, hinv'⟩
    simp only [hfull] at hgrow hwrite htable ⊢
    simp only [if_true, hgrow, Option.bind_eq_bind, Option.bind_some, hwrite, htable]
  · have hne : first + entries.length * env.ptrSize ≠ first + capacity * env.ptrSize := by
      intro heq
      exact hfull (Nat.eq_of_mul_eq_mul_right hw (Nat.add_left_cancel heq))
    obtain ⟨g₂, g', hwrite, htable, hinv', _⟩ := h.toArrayInv.append (by have hlen := h.len; omega) hf
    refine ⟨g', first, capacity, ?_, hinv'⟩
    simp only [if_neg hne, Option.bind_eq_bind, Option.bind_some, hwrite, htable]

/-- The first registration makes the array. -/
theorem register_empty (hempty : ExitGuest.noArray env (g.readOnexitTable env).1) {function array : Nat}
    (hf : function < 256 ^ env.ptrSize) (hfresh : FreshBlock env g array (growSize env g)) :
    ∃ g' first' capacity', g.registerOnexitFunction env function array = some g' ∧
      TableInv env g' [function] first' capacity' := by
  have hpointers : g.tablePointers env = (0, 0, 0) := if_pos hempty
  unfold growSize at hfresh
  rw [hpointers] at hfresh
  simp only [Nat.sub_self, Nat.zero_div, Nat.zero_mul] at hfresh
  obtain ⟨g₁, hgrow, hinv⟩ := growTable_empty hfresh
  obtain ⟨g₂, g', hwrite, htable, hinv', _⟩ := hinv.append (show [].length < 32 by decide) hf
  refine ⟨g', array, 32, ?_, hinv'⟩
  unfold ExitGuest.registerOnexitFunction
  simp only [List.length_nil] at hwrite htable
  simp only [hpointers, if_true, hgrow, Option.bind_eq_bind, Option.bind_some, hwrite, htable]

theorem register_state (hw : 0 < env.ptrSize) {pending : List Nat} (h : TableState env g pending) {function array : Nat}
    (hnull : function ≠ 0) (hf : function < 256 ^ env.ptrSize) (hfresh : FreshBlock env g array (growSize env g)) :
    ∃ g' entries' first' capacity', g.registerOnexitFunction env function array = some g' ∧
      TableInv env g' entries' first' capacity' ∧ pendingEntries entries' = function :: pending := by
  cases h with
  | inl hempty =>
    obtain ⟨g', first', capacity', hres, hinv⟩ := register_empty hempty.1 hf hfresh
    exact ⟨g', _, first', capacity', hres, hinv, by rw [hempty.2]; exact pendingEntries_append [] hnull⟩
  | inr hsome =>
    obtain ⟨entries, first, capacity, hinv, hpending⟩ := hsome
    obtain ⟨g', first', capacity', hres, hinv'⟩ := register_table hw hinv hf hfresh
    exact ⟨g', _, first', capacity', hres, hinv', by rw [hpending]; exact pendingEntries_append entries hnull⟩

/-- The inner loop stops at the last entry that is not null, or in front of the array. -/
theorem skipCalled_spec (hw : 0 < env.ptrSize) (h : ArrayInv env g entries first capacity) (j : Nat)
    (hj : j ≤ entries.length) (hnull : NullFrom entries j) {fuel : Nat} (hfuel : j < fuel) :
    (∃ last, g.skipCalled env first fuel (first + j * env.ptrSize - env.ptrSize) = some last ∧ last < first ∧
      NullFrom entries 0) ∨
    ∃ i f, g.skipCalled env first fuel (first + j * env.ptrSize - env.ptrSize) = some (first + i * env.ptrSize) ∧
      entries[i]? = some f ∧ f ≠ 0 ∧ NullFrom entries (i + 1) := by
  induction j generalizing fuel with
  | zero =>
    obtain ⟨fuel, rfl⟩ : ∃ n, fuel = n + 1 := ⟨fuel - 1, by omega⟩
    have hpos := h.pos
    refine Or.inl ⟨first + 0 * env.ptrSize - env.ptrSize, ?_, by omega, hnull⟩
    rw [ExitGuest.skipCalled, if_neg (by omega)]
  | succ j ih =>
    obtain ⟨fuel, rfl⟩ : ∃ n, fuel = n + 1 := ⟨fuel - 1, by omega⟩
    have hlt : j < entries.length := hj
    have hprev : first + (j + 1) * env.ptrSize - env.ptrSize = first + j * env.ptrSize := by
      rw [Nat.add_mul, Nat.one_mul]
      omega
    have hentry : entries[j]? = some entries[j] := List.getElem?_eq_getElem hlt
    rw [hprev, ExitGuest.skipCalled, if_pos (Nat.le_add_right _ _), h.readEntry hentry]
    show (∃ last, (if entries[j] = 0 then _ else _) = _ ∧ _) ∨ ∃ i f, (if entries[j] = 0 then _ else _) = _ ∧ _
    by_cases hzero : entries[j] = 0
    · rw [if_pos hzero]
      exact ih (Nat.le_of_lt hlt) (hnull.step hlt hzero) (by omega)
    · rw [if_neg hzero]
      exact Or.inr ⟨j, entries[j], rfl, hentry, hzero, hnull⟩

/-- The next turn calls the last function that is left, or ends when there is none. -/
theorem nextCall_spec (hw : 0 < env.ptrSize) (h : TableInv env g entries first capacity) {j : Nat}
    (hj : j ≤ entries.length) (hnull : NullFrom entries j) (saved : Nat × Nat) :
    (pendingEntries entries = [] ∧ ∃ g', g.nextCall env first (first + j * env.ptrSize) saved =
      some (⟨g', none⟩, .finished) ∧ g'.readOnexitTable env = (0, 0, 0)) ∨
    ∃ g' i f, g.nextCall env first (first + j * env.ptrSize) saved =
        some (⟨g', some ⟨first, first + i * env.ptrSize, saved⟩⟩, .called f) ∧ i < entries.length ∧
      TableInv env g' (entries.set i 0) first capacity ∧ NullFrom (entries.set i 0) i ∧
      pendingEntries entries = f :: pendingEntries (entries.set i 0) := by
  have hfuel : j < first + j * env.ptrSize - env.ptrSize + 1 := by
    have hpos := h.pos
    cases j with
    | zero => omega
    | succ j =>
      have hle := Nat.le_mul_of_pos_right j hw
      rw [Nat.add_mul, Nat.one_mul]
      omega
  have hzero : 0 < 256 ^ env.ptrSize := Nat.pow_pos (by decide)
  unfold ExitGuest.nextCall
  cases skipCalled_spec hw h.toArrayInv j hj hnull hfuel with
  | inl hend =>
    obtain ⟨last, hskip, hlast, hall⟩ := hend
    obtain ⟨g', hres, _, hpointers, _⟩ := writeOnexitTable_spec env (g.heapFree first) hzero hzero hzero
    refine Or.inl ⟨?_, g', ?_, hpointers⟩
    · rw [hall.pending, List.take_zero]
      rfl
    · simp only [hskip, Option.bind_eq_bind, Option.bind_some, if_pos hlast, hres]
      rfl
  | inr hcall =>
    obtain ⟨i, f, hskip, hentry, hf, hafter⟩ := hcall
    obtain ⟨hlt, hget⟩ := List.getElem?_eq_some_iff.mp hentry
    obtain ⟨hpending, hset⟩ := hafter.call hlt (by rw [hget]; exact hf)
    rw [hget] at hpending
    obtain ⟨g', hwrite, hinv, hblocks, hframe⟩ := @ArrayInv.writeEntry env g entries (entries.set i 0) first capacity
      h.toArrayInv i 0 (h.index_lt hentry) hzero (by rw [List.length_set]; exact h.len)
      (fun e he => by
        rw [List.getElem?_set_self hlt] at he
        exact Option.some.inj he)
      (fun k e hk he => by
        rw [List.getElem?_set_ne (Ne.symm hk)] at he
        exact he)
    refine Or.inr ⟨g', i, f, ?_, hlt, ⟨hinv, ?_⟩, hset, hpending⟩
    · simp only [hskip, Option.bind_eq_bind, Option.bind_some, h.readEntry hentry, hwrite]
      rw [if_neg (by omega)]
      rfl
    · rw [List.length_set, ← h.pointers]
      refine readOnexitTable_congr fun x hl hu => hframe x ?_
      have hapart := h.apart
      unfold RangesApart at hapart
      omega

end

end Speakeasy
