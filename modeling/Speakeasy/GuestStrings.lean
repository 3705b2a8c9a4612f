import Speakeasy.ByteMemory
import Speakeasy.CodeUnits
import Mathlib.Data.List.GetD

namespace Speakeasy

/-- Characters of `width` bytes as they lie in memory. -/
def charBytes (width : Nat) (cs : List Nat) : List UInt8 := cs.flatMap (toBytes width)

@[simp] theorem charBytes_length (width : Nat) (cs : List Nat) :
    (charBytes width cs).length = cs.length * width := by
  unfold charBytes
  induction cs with
  | nil => simp
  | cons c cs ih => simp [ih, Nat.succ_mul, Nat.add_comm]

theorem charBytes_append (width : Nat) (cs ds : List Nat) :
    charBytes width (cs ++ ds) = charBytes width cs ++ charBytes width ds := List.flatMap_append

theorem charBytes_cons (width c : Nat) (cs : List Nat) :
    charBytes width (c :: cs) = toBytes width c ++ charBytes width cs := rfl

theorem charBytes_drop (width i : Nat) (cs : List Nat) :
    (charBytes width cs).drop (i * width) = charBytes width (cs.drop i) := by
  induction i generalizing cs with
  | zero => rw [Nat.zero_mul, List.drop_zero, List.drop_zero]
  | succ i ih =>
    cases cs with
    | nil => rw [List.drop_nil, charBytes, List.flatMap_nil, List.drop_nil]
    | cons c cs =>
      have hlen : (i + 1) * width = (toBytes width c).length + i * width := by
        rw [toBytes_length, Nat.succ_mul, Nat.add_comm]
      rw [charBytes_cons, hlen, List.drop_append, List.drop_of_length_le (by omega), List.nil_append,
        Nat.add_sub_cancel_left, ih, List.drop_succ_cons]

theorem charBytes_injective {width : Nat} {cs ds : List Nat} (hcs : ∀ c ∈ cs, c < 256 ^ width)
    (hds : ∀ d ∈ ds, d < 256 ^ width) (hlen : cs.length = ds.length)
    (h : charBytes width cs = charBytes width ds) : cs = ds := by
  induction cs generalizing ds with
  | nil =>
    cases ds with
    | nil => rfl
    | cons d ds => cases hlen
  | cons c cs ih =>
    cases ds with
    | nil => cases hlen
    | cons d ds =>
      rw [charBytes_cons, charBytes_cons] at h
      obtain ⟨hhead, htail⟩ := List.append_inj h (by rw [toBytes_length, toBytes_length])
      have hc := congrArg fromBytes hhead
      rw [fromBytes_toBytes_of_lt (hcs c List.mem_cons_self), fromBytes_toBytes_of_lt (hds d List.mem_cons_self)] at hc
      rw [hc, ih (fun x hx => hcs x (List.mem_cons_of_mem _ hx)) (fun x hx => hds x (List.mem_cons_of_mem _ hx))
        (Nat.succ.inj hlen) htail]

/-- The characters that a loop bounded by `maxChars` sees, where 0 is no bound. -/
def boundedChars (maxChars : Nat) (cs : List Nat) : List Nat := if maxChars = 0 then cs else cs.take maxChars

namespace ByteMemory

variable {m : ByteMemory} {width a : Nat} {cs : List Nat}

theorem Holds.of_append {bs ds : List UInt8} (h : m.Holds a (bs ++ ds)) :
    m.Holds a bs ∧ m.Holds (a + bs.length) ds := by
  have hlen : (bs ++ ds).length = bs.length + ds.length := List.length_append
  have hleft : m.readBytes (a + 0) bs.length = ((bs ++ ds).drop 0).take bs.length := h.part (by omega)
  have hright : m.readBytes (a + bs.length) ds.length = ((bs ++ ds).drop bs.length).take ds.length :=
    h.part (by omega)
  rw [List.drop_zero, List.take_left' rfl, Nat.add_zero] at hleft
  rw [List.drop_left' rfl, List.take_length] at hright
  exact ⟨hleft, hright⟩

theorem Holds.readInt_eq {value : Nat} (h : m.Holds a (toBytes width value)) : m.readInt a width = value % 256 ^ width := by
  unfold Holds at h
  rw [toBytes_length] at h
  rw [readInt, h, fromBytes_toBytes]

/-- UTF-16 text with its NUL, one character after another. -/
def HoldsText (m : ByteMemory) : Nat → List Nat → Prop
  | a, [] => m.readInt a 2 = 0
  | a, c :: cs =>
    if c < 0x10000 then m.readInt a 2 = c ∧ HoldsText m (a + 2) cs
    else m.readInt a 2 = 0xD800 + (c - 0x10000) / 0x400 ∧ m.readInt (a + 2) 2 = 0xDC00 + (c - 0x10000) % 0x400 ∧
      HoldsText m (a + 4) cs

/-- The bytes of UTF-16 text with its NUL. -/
def textSize (cs : List Nat) : Nat := (cs.map fun c => if c < 0x10000 then 2 else 4).sum + 2

theorem textSize_eq (cs : List Nat) : (charBytes 2 (encodeUnits (cs ++ [0]))).length = textSize cs := by
  rw [charBytes_length]
  unfold textSize encodeUnits
  induction cs with
  | nil => rfl
  | cons c cs ih =>
    rw [List.cons_append, List.flatMap_cons, List.length_append, List.map_cons, List.sum_cons]
    unfold encodeChar at ih ⊢
    split
    · rw [List.length_singleton]
      omega
    · rw [show ∀ x y : Nat, [x, y].length = 2 from fun _ _ => rfl]
      omega

theorem toNat_lt_of_mem {text : List Char} {c : Nat} (h : c ∈ text.map Char.toNat) : c < 0x110000 := by
  obtain ⟨d, _, rfl⟩ := List.mem_map.mp h
  have hvalid : d.toNat.isValidChar := d.valid
  rcases hvalid with hlow | ⟨_, hhigh⟩
  · omega
  · exact hhigh

/-- The induction is on the text: a character takes one unit or two. -/
theorem holdsText_of_holds (hcs : ∀ c ∈ cs, c < 0x110000) (h : m.Holds a (charBytes 2 (encodeUnits (cs ++ [0])))) :
    m.HoldsText a cs := by
  induction cs generalizing a with
  | nil =>
    have hnul : m.Holds a (toBytes 2 0) := h
    exact hnul.readInt_eq
  | cons c cs ih =>
    have hc := hcs c List.mem_cons_self
    have hrest : ∀ d ∈ cs, d < 0x110000 := fun d hd => hcs d (List.mem_cons_of_mem _ hd)
    unfold HoldsText
    by_cases hsmall : c < 0x10000
    · have hunits : encodeUnits (c :: cs ++ [0]) = c :: encodeUnits (cs ++ [0]) := by
        show encodeChar c ++ _ = _
        rw [encodeChar, if_pos hsmall]
        rfl
      rw [hunits, charBytes_cons] at h
      obtain ⟨hfirst, htail⟩ := h.of_append
      rw [if_pos hsmall]
      refine ⟨?_, ih hrest htail⟩
      rw [hfirst.readInt_eq, Nat.mod_eq_of_lt (by omega)]
    · have hunits : encodeUnits (c :: cs ++ [0]) = (0xD800 + (c - 0x10000) / 0x400) ::
          (0xDC00 + (c - 0x10000) % 0x400) :: encodeUnits (cs ++ [0]) := by
        show encodeChar c ++ _ = _
        rw [encodeChar, if_neg hsmall]
        rfl
      rw [hunits, charBytes_cons, charBytes_cons] at h
      obtain ⟨hhigh, hrest'⟩ := h.of_append
      obtain ⟨hlow, htail⟩ := hrest'.of_append
      rw [if_neg hsmall]
      refine ⟨?_, ?_, ih hrest htail⟩
      · rw [hhigh.readInt_eq, Nat.mod_eq_of_lt (by omega)]
      · have hread := hlow.readInt_eq
        rw [Nat.mod_eq_of_lt (by omega)] at hread
        exact hread

/-- A NUL-terminated array of characters of `width` bytes. -/
structure HoldsString (m : ByteMemory) (width a : Nat) (cs : List Nat) : Prop where
  holds : m.Holds a (charBytes width (cs ++ [0]))
  chars : ∀ c ∈ cs, 0 < c ∧ c < 256 ^ width

def writeChars (m : ByteMemory) (width a : Nat) (cs : List Nat) : ByteMemory := m.writeBytes a (charBytes width cs)

/-- The loop of `read_mem_string`, which keeps the NUL. -/
def memStringChars (m : ByteMemory) (width maxChars : Nat) : Nat → Nat → Nat → Option (List Nat)
  | 0, _, _ => none
  | fuel + 1, address, i =>
    if maxChars ≠ 0 ∧ maxChars ≤ i then some []
    else
      let char := m.readInt address width
      if char = 0 then some [char]
      else (memStringChars m width maxChars fuel (address + width) (i + 1)).map (char :: ·)

/-- U+FFFD for each unpaired surrogate. -/
def replace (_ : Nat) : Nat := 0xFFFD

/-- `read_mem_string` of UTF-16 text: its characters without the NUL. -/
def readWideString (m : ByteMemory) (fuel address maxChars : Nat) : Option (List Nat) :=
  (m.memStringChars 2 maxChars fuel address 0).map fun us => (decodeUnits replace us).filter (· ≠ 0)

/-- The units that `write_mem_string` writes; no UTF-16 text has a surrogate as a character. -/
def wideStringUnits (text : List Nat) : Option (List Nat) :=
  let text := if text.getLast? = some 0 then text else text ++ [0]
  if text.any isSurrogate then none else some (encodeUnits text)

def writeWideString (m : ByteMemory) (text : List Nat) (address : Nat) : Option ByteMemory :=
  (wideStringUnits text).map (m.writeChars 2 address ·)

/-- The loop of `read_cstr`. -/
def readCstrLoop (m : ByteMemory) (addr maxChars width : Nat) : Nat → List Nat → Option (List Nat)
  | 0, _ => none
  | fuel + 1, data =>
    if maxChars ≠ 0 ∧ maxChars ≤ data.length then some data
    else
      let char := m.readInt (addr + data.length * width) width
      if char = 0 then some data else readCstrLoop m addr maxChars width fuel (data ++ [char])

def readCstr (m : ByteMemory) (fuel addr maxChars width : Nat) : Option (List Nat) :=
  m.readCstrLoop addr maxChars width fuel []

namespace HoldsString

theorem readInt_get (h : m.HoldsString width a cs) {i : Nat} (hi : i ≤ cs.length) :
    m.readInt (a + i * width) width = (cs ++ [0]).getD i 0 := by
  have hlen : (cs ++ [0]).length = cs.length + 1 := List.length_append
  have hin : i * width + width ≤ (charBytes width (cs ++ [0])).length := by
    rw [charBytes_length, hlen, ← Nat.succ_mul]
    exact Nat.mul_le_mul_right width (by omega)
  have hi' : i < (cs ++ [0]).length := by omega
  have hlt : (cs ++ [0]).getD i 0 < 256 ^ width := by
    rw [List.getD_eq_getElem _ 0 hi']
    rcases List.mem_append.mp (List.getElem_mem hi') with hmem | hmem
    · exact (h.chars _ hmem).2
    · rw [List.mem_singleton.mp hmem]
      exact Nat.pow_pos (by omega)
  rw [readInt, h.holds.part hin, charBytes_drop, List.drop_eq_getElem_cons hi', charBytes_cons,
    ← List.getD_eq_getElem _ 0 hi', List.take_left' (toBytes_length _ _), fromBytes_toBytes_of_lt hlt]

theorem getD_pos (h : m.HoldsString width a cs) {i : Nat} (hi : i < cs.length) : 0 < (cs ++ [0]).getD i 0 := by
  rw [List.getD_append _ _ _ _ hi, List.getD_eq_getElem _ 0 hi]
  exact (h.chars _ (List.getElem_mem hi)).1

theorem memStringChars_from (h : m.HoldsString width a cs) (maxChars : Nat) {fuel i : Nat} (hi : i ≤ cs.length)
    (hmax : maxChars = 0 ∨ i ≤ maxChars) (hfuel : cs.length < fuel + i) :
    m.memStringChars width maxChars fuel (a + i * width) i =
      some ((boundedChars maxChars (cs ++ [0])).drop i) := by
  induction fuel generalizing i with
  | zero => omega
  | succ fuel ih =>
    rw [memStringChars]
    by_cases hstop : maxChars ≠ 0 ∧ maxChars ≤ i
    · rw [if_pos hstop, boundedChars, if_neg hstop.1, List.drop_of_length_le]
      rw [List.length_take]
      omega
    · rw [if_neg hstop]
      simp only [h.readInt_get hi]
      have hlen : (cs ++ [0]).length = cs.length + 1 := List.length_append
      have hlt : i < (boundedChars maxChars (cs ++ [0])).length := by
        unfold boundedChars
        split
        next => omega
        next hne =>
          rw [List.length_take]
          omega
      have hget : (boundedChars maxChars (cs ++ [0])).drop i =
          (cs ++ [0]).getD i 0 :: (boundedChars maxChars (cs ++ [0])).drop (i + 1) := by
        rw [List.drop_eq_getElem_cons hlt, List.getD_eq_getElem _ 0 (by omega)]
        congr 1
        unfold boundedChars
        split
        next => rfl
        next => exact List.getElem_take
      by_cases hend : i = cs.length
      · have hzero : (cs ++ [0]).getD i 0 = 0 := by
          rw [hend, List.getD_append_right _ _ _ _ (Nat.le_refl _), Nat.sub_self]
          rfl
        have hrest : (boundedChars maxChars (cs ++ [0])).drop (i + 1) = [] := by
          apply List.drop_of_length_le
          have hle : (boundedChars maxChars (cs ++ [0])).length ≤ (cs ++ [0]).length := by
            unfold boundedChars
            split
            next => exact Nat.le_refl _
            next => exact List.length_take_le' _ _
          omega
        rw [if_pos hzero, hget, hrest]
      · have hpos := h.getD_pos (show i < cs.length by omega)
        have hnext : a + i * width + width = a + (i + 1) * width := by rw [Nat.succ_mul, Nat.add_assoc]
        rw [if_neg (by omega), hnext, ih (by omega) (by omega) (by omega), hget]
        rfl

theorem memStringChars_eq (h : m.HoldsString width a cs) (maxChars : Nat) {fuel : Nat} (hfuel : cs.length < fuel) :
    m.memStringChars width maxChars fuel a 0 = some (boundedChars maxChars (cs ++ [0])) := by
  have hfrom := h.memStringChars_from maxChars (Nat.zero_le _) (Or.inr (Nat.zero_le _)) (i := 0) hfuel
  rwa [Nat.zero_mul, Nat.add_zero, List.drop_zero] at hfrom

theorem readCstrLoop_from (h : m.HoldsString width a cs) (maxChars : Nat) {fuel i : Nat} (hi : i ≤ cs.length)
    (hmax : maxChars = 0 ∨ i ≤ maxChars) (hfuel : cs.length < fuel + i) :
    m.readCstrLoop a maxChars width fuel (cs.take i) = some (boundedChars maxChars cs) := by
  induction fuel generalizing i with
  | zero => omega
  | succ fuel ih =>
    have hlen : (cs.take i).length = i := List.length_take_of_le hi
    rw [readCstrLoop, hlen]
    by_cases hstop : maxChars ≠ 0 ∧ maxChars ≤ i
    · have heq : i = maxChars := by omega
      rw [if_pos hstop, boundedChars, if_neg hstop.1, heq]
    · rw [if_neg hstop]
      simp only [h.readInt_get hi]
      by_cases hend : i = cs.length
      · have hzero : (cs ++ [0]).getD i 0 = 0 := by
          rw [hend, List.getD_append_right _ _ _ _ (Nat.le_refl _), Nat.sub_self]
          rfl
        rw [if_pos hzero, hend, List.take_length, boundedChars]
        split
        next => rfl
        next => rw [List.take_of_length_le (by omega)]
      · have hlt : i < cs.length := by omega
        have hpos := h.getD_pos hlt
        have hnext : cs.take i ++ [(cs ++ [0]).getD i 0] = cs.take (i + 1) := by
          rw [List.getD_append _ _ _ _ hlt, List.getD_eq_getElem _ 0 hlt, List.take_append_getElem hlt]
        rw [if_neg (by omega), hnext]
        exact ih (by omega) (by omega) (by omega)

/-- `read_cstr` reads the characters as they stand. -/
theorem readCstr_eq (h : m.HoldsString width a cs) (maxChars : Nat) {fuel : Nat} (hfuel : cs.length < fuel) :
    m.readCstr fuel a maxChars width = some (boundedChars maxChars cs) :=
  h.readCstrLoop_from maxChars (Nat.zero_le _) (Or.inr (Nat.zero_le _)) (i := 0) hfuel

end HoldsString

theorem filter_decodeUnits {us : List Nat} (h : ∀ u ∈ us, 0 < u) :
    (decodeUnits replace us).filter (· ≠ 0) = decodeUnits replace us := by
  apply List.filter_eq_self.mpr
  intro c hc
  rw [decide_eq_true_eq]
  rintro rfl
  rcases (mem_decodeUnits_iff (by omega)).mp hc with ⟨hmem, -⟩ | ⟨_, -, -, hbad⟩
  · exact absurd (h 0 hmem) (Nat.lt_irrefl 0)
  · cases hbad

/-- `read_wide_string` reads the decoded text up to its NUL or to its bound. -/
theorem HoldsString.readWideString_eq (h : m.HoldsString 2 a cs) (maxChars : Nat) {fuel : Nat}
    (hfuel : cs.length < fuel) :
    m.readWideString fuel a maxChars = some (decodeUnits replace (boundedChars maxChars cs)) := by
  have hpos : ∀ u ∈ cs, 0 < u := fun u hu => (h.chars u hu).1
  have hwhole : (decodeUnits replace (cs ++ [0])).filter (· ≠ 0) = decodeUnits replace cs := by
    rw [decodeUnits_split cs [] (by decide), List.filter_append, filter_decodeUnits hpos]
    simp [decodeUnits]
  rw [readWideString, h.memStringChars_eq maxChars hfuel, Option.map_some]
  congr 1
  unfold boundedChars
  split
  next => exact hwhole
  next =>
    by_cases hle : maxChars ≤ cs.length
    · rw [List.take_append_of_le_length hle]
      exact filter_decodeUnits fun u hu => hpos u (List.mem_of_mem_take hu)
    · rw [List.take_of_length_le (by simp; omega), List.take_of_length_le (by omega)]
      exact hwhole

end ByteMemory

end Speakeasy
