import Speakeasy.MemoryManager

namespace Speakeasy

/-- What the import checks read of a PE: `pe.get_data` gives none where pefile raises. -/
structure PeView where
  arch : Arch
  base : Nat
  imageSize : Nat
  getData : Nat → Nat → Option (List UInt8)
  maxImportNameLength : Nat

structure ImportSymbol where
  importByOrdinal : Bool
  ordinal : Nat
  name : Option (List UInt8)
deriving DecidableEq, Repr

/-- A symbol that pefile kept. -/
structure ParsedSymbol where
  address : Option Nat
  thunkRva : Option Nat
  symbol : ImportSymbol

structure ImportDescriptor where
  originalFirstThunk : Nat
  firstThunk : Nat

namespace PeView

variable (pe : PeView) (entry : ImportDescriptor) (parsed : List ParsedSymbol)

def width : Nat := pe.arch.bits / 8

/-- The thunk RVA of a symbol is its IAT slot, inside the image. -/
def readFromIat (s : ParsedSymbol) : Bool :=
  match s.address, s.thunkRva with
  | some address, some thunkRva =>
    let offset := address - pe.base - entry.firstThunk
    pe.base + entry.firstThunk ≤ address ∧ offset % pe.width = 0 ∧ 0 < entry.firstThunk ∧
      entry.firstThunk + offset + pe.width ≤ pe.imageSize ∧ thunkRva = entry.firstThunk + offset
  | _, _ => false

/-- The table to read: the name table, or the IAT. -/
def tableRva : Nat :=
  let table := if entry.originalFirstThunk ≠ 0 then entry.originalFirstThunk else entry.firstThunk
  if table ≠ entry.firstThunk ∧ parsed.any (pe.readFromIat entry) then entry.firstThunk else table

/-- The last symbol with a thunk RVA. -/
def symbolAt (thunkRva : Nat) : Option ImportSymbol :=
  (parsed.reverse.find? (·.thunkRva = some thunkRva)).map ParsedSymbol.symbol

def readThunk (table index : Nat) : Option Nat :=
  if table ≠ 0 ∧ table + index * pe.width + pe.width ≤ pe.imageSize then
    (pe.getData (table + index * pe.width) pe.width).bind fun raw =>
      if raw.length = pe.width then some (fromBytes raw) else none
  else none

def ordinalFlag : Nat := 2 ^ (pe.arch.bits - 1)

/-- The value is below `2 ^ bits`, so what `~(ordinal_flag | 0xFFFF)` keeps lies between the two. -/
def reservedBits (value : Nat) : Nat := value % pe.ordinalFlag / 2 ^ 16

def readName (value : Nat) : Option (List UInt8) :=
  if 0 < value ∧ value + 3 ≤ pe.imageSize then
    (pe.getData (value + 2) (min pe.maxImportNameLength (pe.imageSize - value - 2))).bind fun raw =>
      if 0 ∈ raw then some (raw.takeWhile (· ≠ 0)) else none
  else none

/-- The symbol of a nonzero thunk, if the loader does not skip it. -/
def thunkSymbol (thunkRva value : Nat) : Option ImportSymbol :=
  let ordinal : Bool := pe.ordinalFlag ≤ value
  if ordinal ∧ pe.reservedBits value ≠ 0 then none
  else
    match symbolAt parsed thunkRva with
    | some symbol => some symbol
    | none =>
      if ordinal then some ⟨true, value % 2 ^ 16, none⟩
      else (pe.readName value).map fun name => ⟨false, value % 2 ^ 16, some name⟩

/-- The slots from an index on, and the budget that is left. Without a budget every way out of the loop
leaves it as it is. -/
def slotsFrom (table : Nat) : Nat → Nat → List (Nat × ImportSymbol) × Nat
  | 0, _ => ([], 0)
  | budget + 1, index =>
    match pe.readThunk table index with
    | none => ([], budget + 1)
    | some value =>
      if value = 0 then ([], budget + 1)
      else
        let (slots, left) := slotsFrom table budget (index + 1)
        match pe.thunkSymbol parsed (table + index * pe.width) value with
        | none => (slots, left)
        | some symbol => ((entry.firstThunk + index * pe.width, symbol) :: slots, left)

def staticImportSlots (budget : Nat) : List (Nat × ImportSymbol) × Nat :=
  pe.slotsFrom entry parsed (pe.tableRva entry parsed) budget 0

/-- The symbols that pefile keeps of the table that it reads, each with the index of its thunk. -/
def parsedSymbols (fromIat : Bool) (kept : List (Nat × ImportSymbol)) : List ParsedSymbol :=
  kept.map fun k =>
    { address := some (pe.base + entry.firstThunk + k.1 * pe.width)
      thunkRva := some ((if fromIat then entry.firstThunk else entry.originalFirstThunk) + k.1 * pe.width)
      symbol := k.2 }

/-- A name of a thunk that ends in the image, in a number of bytes. -/
def NameAt (limit value : Nat) (name : List UInt8) : Prop :=
  0 < value ∧ value + 3 ≤ pe.imageSize ∧ 0 ∉ name ∧
    ∃ raw, pe.getData (value + 2) (min limit (pe.imageSize - value - 2)) = some raw ∧ name ++ [0] <+: raw

/-- The symbol of a thunk: of a kept one, of an ordinal, or with a name in the image. -/
def ThunkSymbol (limit thunkRva value : Nat) (symbol : ImportSymbol) : Prop :=
  ¬(pe.ordinalFlag ≤ value ∧ pe.reservedBits value ≠ 0) ∧
  (symbolAt parsed thunkRva = some symbol ∨
    (symbolAt parsed thunkRva = none ∧
      ((pe.ordinalFlag ≤ value ∧ symbol = ⟨true, value % 2 ^ 16, none⟩) ∨
        (value < pe.ordinalFlag ∧ ∃ name, pe.NameAt limit value name ∧
          symbol = ⟨false, value % 2 ^ 16, some name⟩))))

/-- The indices before the first zero thunk, the first thunk outside the image and the end of the budget. -/
structure Stops (table budget n : Nat) : Prop where
  le : n ≤ budget
  nonzero : ∀ i < n, ∃ value, value ≠ 0 ∧ pe.readThunk table i = some value
  stop : n = budget ∨ pe.readThunk table n = none ∨ pe.readThunk table n = some 0

/-- The slots of a descriptor with a limit for the length of a name: a pair for each index whose thunk has a
symbol, in order, and the rest of the budget. -/
def SlotsLaw (limit budget : Nat) (result : List (Nat × ImportSymbol) × Nat) : Prop :=
  ∃ n, ∃ symbols : Nat → Option ImportSymbol,
    pe.Stops (pe.tableRva entry parsed) budget n ∧
    (∀ i symbol, symbols i = some symbol ↔ ∃ value,
      pe.readThunk (pe.tableRva entry parsed) i = some value ∧
      pe.ThunkSymbol parsed limit (pe.tableRva entry parsed + i * pe.width) value symbol) ∧
    result.1 = (List.range n).filterMap (fun i =>
      (symbols i).map fun symbol => (entry.firstThunk + i * pe.width, symbol)) ∧
    result.2 = budget - n

/-- The loader reads the IAT when there is no other table, or when pefile kept a symbol that it read from
the IAT, in the image. -/
def TableLaw (fromIat : Bool) (kept : List (Nat × ImportSymbol)) : Prop :=
  pe.tableRva entry (pe.parsedSymbols entry fromIat kept) = entry.firstThunk ↔
    entry.originalFirstThunk = 0 ∨ entry.originalFirstThunk = entry.firstThunk ∨
    (fromIat = true ∧ 0 < entry.firstThunk ∧
      ∃ k ∈ kept, entry.firstThunk + k.1 * pe.width + pe.width ≤ pe.imageSize)

variable {pe entry parsed}

theorem width_pos : 0 < pe.width := by
  unfold width
  cases pe.arch with
  | x86 => decide
  | amd64 => decide

theorem takeWhile_nul {name rest : List UInt8} (h : 0 ∉ name) :
    (name ++ 0 :: rest).takeWhile (· ≠ 0) = name := by
  have hname : ∀ b ∈ name, decide (b ≠ 0) = true := by
    intro b hb
    refine decide_eq_true ?_
    rintro rfl
    exact h hb
  rw [List.takeWhile_append_of_pos hname, List.takeWhile_cons_of_neg (by simp), List.append_nil]

/-- The first NUL of the data ends a name. -/
theorem readName_eq_some {value : Nat} {name : List UInt8} :
    pe.readName value = some name ↔ pe.NameAt pe.maxImportNameLength value name := by
  unfold readName NameAt
  by_cases hrange : 0 < value ∧ value + 3 ≤ pe.imageSize
  · rw [if_pos hrange, Option.bind_eq_some_iff]
    constructor
    · rintro ⟨raw, hraw, hname⟩
      split at hname
      next hzero =>
        obtain ⟨before, after, rfl, hbefore⟩ := List.eq_append_cons_of_mem hzero
        rw [takeWhile_nul hbefore] at hname
        cases hname
        exact ⟨hrange.1, hrange.2, hbefore, _, hraw, after, by simp⟩
      next => cases hname
    · rintro ⟨_, _, hzero, raw, hraw, rest, rfl⟩
      refine ⟨_, hraw, ?_⟩
      rw [List.append_assoc, List.singleton_append, takeWhile_nul hzero, if_pos (by simp)]
  · rw [if_neg hrange]
    constructor
    · intro hnone
      cases hnone
    · rintro ⟨hpos, hle, _⟩
      exact absurd ⟨hpos, hle⟩ hrange

theorem thunkSymbol_eq_some {thunkRva value : Nat} {symbol : ImportSymbol} :
    pe.thunkSymbol parsed thunkRva value = some symbol ↔
      pe.ThunkSymbol parsed pe.maxImportNameLength thunkRva value symbol := by
  unfold thunkSymbol ThunkSymbol
  simp only [decide_eq_true_eq]
  by_cases hreserved : pe.ordinalFlag ≤ value ∧ pe.reservedBits value ≠ 0
  · rw [if_pos hreserved]
    simp [hreserved]
  · rw [if_neg hreserved]
    cases hkept : symbolAt parsed thunkRva with
    | some kept => simp [hreserved]
    | none =>
      by_cases hordinal : pe.ordinalFlag ≤ value
      · have hlt : ¬value < pe.ordinalFlag := by omega
        simp only [if_pos hordinal, Option.some.injEq]
        constructor
        · rintro rfl
          exact ⟨hreserved, Or.inr ⟨trivial, Or.inl ⟨hordinal, rfl⟩⟩⟩
        · rintro ⟨_, hnone | ⟨_, ⟨_, rfl⟩ | ⟨hname, _⟩⟩⟩
          · cases hnone
          · rfl
          · exact absurd hname hlt
      · have hlt : value < pe.ordinalFlag := by omega
        simp only [if_neg hordinal, Option.map_eq_some_iff, readName_eq_some]
        constructor
        · rintro ⟨name, hname, rfl⟩
          exact ⟨hreserved, Or.inr ⟨trivial, Or.inr ⟨hlt, name, hname, rfl⟩⟩⟩
        · rintro ⟨_, hnone | ⟨_, ⟨hname, _⟩ | ⟨_, name, hname, rfl⟩⟩⟩
          · cases hnone
          · exact absurd hname hordinal
          · exact ⟨name, hname, rfl⟩

/-- The symbol of an index of the table. -/
def indexSymbol (pe : PeView) (parsed : List ParsedSymbol) (table i : Nat) : Option ImportSymbol :=
  (pe.readThunk table i).bind (pe.thunkSymbol parsed (table + i * pe.width))

/-- The scan of a table, by induction on the budget. -/
theorem slotsFrom_spec (table budget index : Nat) :
    ∃ n ≤ budget, (∀ i < n, ∃ value, value ≠ 0 ∧ pe.readThunk table (index + i) = some value) ∧
      (n = budget ∨ pe.readThunk table (index + n) = none ∨ pe.readThunk table (index + n) = some 0) ∧
      pe.slotsFrom entry parsed table budget index = ((List.range n).filterMap (fun i =>
        (pe.indexSymbol parsed table (index + i)).map fun symbol =>
          (entry.firstThunk + (index + i) * pe.width, symbol)), budget - n) := by
  induction budget generalizing index with
  | zero => exact ⟨0, Nat.le_refl _, fun i hi => absurd hi (Nat.not_lt_zero i), Or.inl rfl, rfl⟩
  | succ budget ih =>
    have hempty : ∀ i < 0, ∃ value, value ≠ 0 ∧ pe.readThunk table (index + i) = some value :=
      fun i hi => absurd hi (Nat.not_lt_zero i)
    rw [slotsFrom]
    cases hread : pe.readThunk table index with
    | none => exact ⟨0, Nat.zero_le _, hempty, Or.inr (Or.inl hread), rfl⟩
    | some value =>
      by_cases hzero : value = 0
      · subst hzero
        exact ⟨0, Nat.zero_le _, hempty, Or.inr (Or.inr hread), by simp⟩
      · obtain ⟨n, hle, hnonzero, hstop, hslots⟩ := ih (index + 1)
        have hshift : ∀ i, index + 1 + i = index + (i + 1) := fun i => by omega
        refine ⟨n + 1, by omega, ?_, ?_, ?_⟩
        · intro i hi
          cases i with
          | zero => exact ⟨value, hzero, hread⟩
          | succ i =>
            rw [← hshift]
            exact hnonzero i (by omega)
        · rw [← hshift]
          exact hstop.imp_left (congrArg Nat.succ)
        · simp only [if_neg hzero, hslots]
          rw [List.range_succ_eq_map, List.filterMap_cons, List.filterMap_map]
          have hhead : pe.indexSymbol parsed table (index + 0) =
              pe.thunkSymbol parsed (table + index * pe.width) value := by
            rw [Nat.add_zero, indexSymbol, hread, Option.bind_some]
          have htail : (fun i => (pe.indexSymbol parsed table (index + i)).map fun symbol =>
              (entry.firstThunk + (index + i) * pe.width, symbol)) ∘ Nat.succ = fun i =>
              (pe.indexSymbol parsed table (index + 1 + i)).map fun symbol =>
                (entry.firstThunk + (index + 1 + i) * pe.width, symbol) := by
            funext i
            rw [Function.comp, hshift]
          rw [hhead, htail]
          cases pe.thunkSymbol parsed (table + index * pe.width) value with
          | none => simp
          | some symbol => simp

theorem slotsLaw (pe : PeView) (entry : ImportDescriptor) (parsed : List ParsedSymbol) (budget : Nat) :
    pe.SlotsLaw entry parsed pe.maxImportNameLength budget (pe.staticImportSlots entry parsed budget) := by
  obtain ⟨n, hle, hnonzero, hstop, hslots⟩ :=
    @slotsFrom_spec pe entry parsed (pe.tableRva entry parsed) budget 0
  simp only [Nat.zero_add] at hnonzero hstop hslots
  refine ⟨n, pe.indexSymbol parsed (pe.tableRva entry parsed), ⟨hle, hnonzero, hstop⟩, ?_, ?_, ?_⟩
  · intro i symbol
    rw [indexSymbol, Option.bind_eq_some_iff]
    exact exists_congr fun value => and_congr_right fun _ => thunkSymbol_eq_some
  · rw [staticImportSlots, hslots]
  · rw [staticImportSlots, hslots]

/-- The slot of a symbol that pefile read from the IAT. -/
theorem readFromIat_parsed (fromIat : Bool) (k : Nat × ImportSymbol)
    (hne : entry.originalFirstThunk ≠ entry.firstThunk) :
    pe.readFromIat entry
      { address := some (pe.base + entry.firstThunk + k.1 * pe.width)
        thunkRva := some ((if fromIat then entry.firstThunk else entry.originalFirstThunk) + k.1 * pe.width)
        symbol := k.2 } = true ↔
    fromIat = true ∧ 0 < entry.firstThunk ∧
      entry.firstThunk + k.1 * pe.width + pe.width ≤ pe.imageSize := by
  have hoffset : pe.base + entry.firstThunk + k.1 * pe.width - pe.base - entry.firstThunk =
      k.1 * pe.width := by omega
  simp only [readFromIat, hoffset, decide_eq_true_eq, Nat.mul_mod_left, true_and]
  cases fromIat with
  | true => simp
  | false => simp [hne]

theorem tableLaw (pe : PeView) (entry : ImportDescriptor) (fromIat : Bool)
    (kept : List (Nat × ImportSymbol)) : pe.TableLaw entry fromIat kept := by
  unfold TableLaw tableRva
  by_cases hzero : entry.originalFirstThunk = 0
  · simp [hzero]
  · by_cases hsame : entry.originalFirstThunk = entry.firstThunk
    · simp [hsame]
    · have hany : (pe.parsedSymbols entry fromIat kept).any (pe.readFromIat entry) = true ↔
          fromIat = true ∧ 0 < entry.firstThunk ∧
            ∃ k ∈ kept, entry.firstThunk + k.1 * pe.width + pe.width ≤ pe.imageSize := by
        rw [parsedSymbols, List.any_map, List.any_eq_true]
        constructor
        · rintro ⟨k, hk, hread⟩
          obtain ⟨hiat, hpos, hle⟩ := (readFromIat_parsed fromIat k hsame).mp hread
          exact ⟨hiat, hpos, k, hk, hle⟩
        · rintro ⟨hiat, hpos, k, hk, hle⟩
          exact ⟨k, hk, (readFromIat_parsed fromIat k hsame).mpr ⟨hiat, hpos, hle⟩⟩
      rw [← hany]
      cases hread : (pe.parsedSymbols entry fromIat kept).any (pe.readFromIat entry) with
      | true => simp [hzero, hsame]
      | false => simp [hzero, hsame]

/-- The import slots of a static descriptor do not shift. -/
theorem staticImportSlots_law (pe : PeView) (entry : ImportDescriptor) (fromIat : Bool)
    (kept : List (Nat × ImportSymbol)) (budget : Nat) :
    pe.TableLaw entry fromIat kept ∧
    ∀ parsed, pe.SlotsLaw entry parsed pe.maxImportNameLength budget
      (pe.staticImportSlots entry parsed budget) :=
  ⟨tableLaw pe entry fromIat kept, fun parsed => slotsLaw pe entry parsed budget⟩

/-- A thunk at 0x10 with a name of 520 bytes. -/
def longNameImage : List UInt8 :=
  List.replicate 16 0 ++ [0x30, 0, 0, 0] ++ List.replicate 30 0 ++ List.replicate 520 0x41 ++
    List.replicate 6 0

def longNameView : PeView where
  arch := .x86
  base := 0x400000
  imageSize := 576
  getData rva length := some ((longNameImage.drop rva).take length)
  maxImportNameLength := 0x200

/-- A name that ends in the image after the name limit of pefile gives no slot. -/
theorem staticImportSlots_longName : ¬longNameView.SlotsLaw ⟨0x10, 0x18⟩ [] longNameView.imageSize 8
    (longNameView.staticImportSlots ⟨0x10, 0x18⟩ [] 8) := by
  rintro ⟨n, symbols, hstops, hsymbols, hslots, _⟩
  have hthunk : longNameView.readThunk 0x10 0 = some 0x30 := by decide
  have hempty : (longNameView.staticImportSlots ⟨0x10, 0x18⟩ [] 8).1 = [] := by decide +kernel
  have hname : longNameView.NameAt longNameView.imageSize 0x30 (List.replicate 520 0x41) :=
    ⟨by decide, by decide, by decide +kernel, _, rfl, by decide +kernel⟩
  have hsymbol : symbols 0 = some ⟨false, 0x30, some (List.replicate 520 0x41)⟩ :=
    (hsymbols 0 _).mpr ⟨0x30, hthunk, by decide, Or.inr ⟨rfl, Or.inr ⟨by decide, _, hname, rfl⟩⟩⟩
  have hpos : 0 < n := by
    rcases Nat.eq_zero_or_pos n with rfl | hpos
    · rcases hstops.stop with h | h | h
      · cases h
      · exact absurd (hthunk.symm.trans h) (by decide)
      · exact absurd (hthunk.symm.trans h) (by decide)
    · exact hpos
  rw [hempty] at hslots
  have hmem : (0x18, (⟨false, 0x30, some (List.replicate 520 0x41)⟩ : ImportSymbol)) ∈
      (List.range n).filterMap fun i =>
        (symbols i).map fun symbol => (0x18 + i * longNameView.width, symbol) :=
    List.mem_filterMap.mpr ⟨0, List.mem_range.mpr hpos, by rw [hsymbol]; rfl⟩
  rw [← hslots] at hmem
  cases hmem

end PeView

end Speakeasy
