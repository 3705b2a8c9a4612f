import Mathlib.Data.Nat.Digits.Defs

/-! Bytes as text: `int(text, 16)`, `bytes.fromhex`, `f"{n:x}"` and `text.split(sep, count)`. -/

namespace PyBytes

def isSpace (b : UInt8) : Bool := b = 32 || (9 ≤ b && b ≤ 13)

def hexValue (b : UInt8) : Option Nat :=
  if 48 ≤ b ∧ b ≤ 57 then some (b.toNat - 48)
  else if 97 ≤ b ∧ b ≤ 102 then some (b.toNat - 87)
  else if 65 ≤ b ∧ b ≤ 70 then some (b.toNat - 55)
  else none

/-- The digits at the front of a text, with single underscores between them, and the rest.
`underscore` tells if the byte before is one. -/
def takeHex (value : Nat) (underscore : Bool) : List UInt8 → Option (Nat × List UInt8)
  | [] => if underscore then none else some (value, [])
  | b :: bs =>
    match hexValue b with
    | some d => takeHex (16 * value + d) false bs
    | none =>
      if b = 95 then if underscore then none else takeHex value true bs
      else if underscore then none
      else some (value, b :: bs)

/-- A text without its sign, and if that is a minus. -/
def splitSign : List UInt8 → Bool × List UInt8
  | 43 :: text => (false, text)
  | 45 :: text => (true, text)
  | text => (false, text)

/-- A text without `0x`, which one underscore may follow. -/
def dropPrefix : List UInt8 → List UInt8
  | 48 :: 120 :: 95 :: text => text
  | 48 :: 88 :: 95 :: text => text
  | 48 :: 120 :: text => text
  | 48 :: 88 :: text => text
  | text => text

/-- `int(text, 16)`, where `none` is the `ValueError`. -/
def intHex (text : List UInt8) : Option Int :=
  let (negative, text) := splitSign (text.dropWhile isSpace)
  let text := dropPrefix text
  if text.head? = some 95 then none
  else
    match takeHex 0 false text with
    | none => none
    | some (value, rest) =>
      if rest.length = text.length ∨ rest.dropWhile isSpace ≠ [] then none
      else some (if negative then -(value : Int) else value)

/-- `bytes.fromhex`. White space may stand between two bytes. -/
def fromHex : List UInt8 → Option (List UInt8)
  | [] => some []
  | b :: bs =>
    if isSpace b then fromHex bs
    else
      match bs with
      | [] => none
      | c :: rest =>
        match hexValue b, hexValue c with
        | some high, some low => (fromHex rest).map (UInt8.ofNat (16 * high + low) :: ·)
        | _, _ => none

def hexDigit (d : Nat) : UInt8 := UInt8.ofNat (if d < 10 then 48 + d else 87 + d)

/-- `f"{n:x}"`. -/
def hexText (n : Nat) : List UInt8 :=
  if n = 0 then [48] else (Nat.digits 16 n).reverse.map hexDigit

/-- `text.split(sep, count)`. -/
def split (sep : UInt8) : Nat → List UInt8 → List (List UInt8)
  | 0, text => [text]
  | count + 1, text =>
    if sep ∈ text then
      text.takeWhile (· ≠ sep) :: split sep count ((text.dropWhile (· ≠ sep)).drop 1)
    else [text]

theorem split_cons {sep : UInt8} {first : List UInt8} (h : sep ∉ first) (count : Nat) (rest : List UInt8) :
    split sep (count + 1) (first ++ sep :: rest) = first :: split sep count rest := by
  have hne : ∀ b ∈ first, decide (b ≠ sep) = true := by
    intro b hb
    exact decide_eq_true fun heq => h (heq ▸ hb)
  have htake : (first ++ sep :: rest).takeWhile (· ≠ sep) = first := by
    rw [List.takeWhile_append_of_pos hne]
    simp
  have hdrop : (first ++ sep :: rest).dropWhile (· ≠ sep) = sep :: rest := by
    rw [List.dropWhile_append_of_pos hne]
    simp
  rw [split, if_pos (by simp), htake, hdrop]
  rfl

theorem split_last {sep : UInt8} {text : List UInt8} (h : sep ∉ text) (count : Nat) :
    split sep count text = [text] := by
  cases count with
  | zero => rfl
  | succ count => rw [split, if_neg h]

theorem hexValue_hexDigit {d : Nat} (h : d < 16) : hexValue (hexDigit d) = some d := by
  revert h
  revert d
  decide

theorem hexDigit_range {d : Nat} (h : d < 16) : (48 ≤ hexDigit d ∧ hexDigit d ≤ 57) ∨
    (97 ≤ hexDigit d ∧ hexDigit d ≤ 102) := by
  revert h
  revert d
  decide

/-- A text of digits is read to its end. -/
theorem takeHex_digits {ds : List Nat} (h : ∀ d ∈ ds, d < 16) (value : Nat) :
    takeHex value false (ds.map hexDigit) = some (ds.foldl (fun v d => 16 * v + d) value, []) := by
  induction ds generalizing value with
  | nil => rfl
  | cons d ds ih =>
    rw [List.map_cons, takeHex, hexValue_hexDigit (h d List.mem_cons_self)]
    exact ih (fun x hx => h x (List.mem_cons_of_mem _ hx)) _

theorem foldl_digits (ds : List Nat) :
    ds.reverse.foldl (fun v d => 16 * v + d) 0 = Nat.ofDigits 16 ds := by
  rw [List.foldl_reverse]
  induction ds with
  | nil => rfl
  | cons d ds ih =>
    rw [List.foldr_cons, ih, Nat.ofDigits_cons]
    omega

theorem hexText_digits (n : Nat) : ∃ ds : List Nat, (∀ d ∈ ds, d < 16) ∧ ds ≠ [] ∧
    hexText n = ds.map hexDigit ∧ ds.foldl (fun v d => 16 * v + d) 0 = n := by
  unfold hexText
  by_cases hn : n = 0
  · subst hn
    exact ⟨[0], by decide, by decide, rfl, rfl⟩
  · rw [if_neg hn]
    refine ⟨(Nat.digits 16 n).reverse, fun d hd => ?_, ?_, rfl, ?_⟩
    · exact Nat.digits_lt_base (by omega) (List.mem_reverse.mp hd)
    · intro hnil
      exact hn (Nat.digits_eq_nil_iff_eq_zero.mp (List.reverse_eq_nil_iff.mp hnil))
    · rw [foldl_digits, Nat.ofDigits_digits]

theorem hexText_range {n : Nat} {b : UInt8} (h : b ∈ hexText n) :
    (48 ≤ b ∧ b ≤ 57) ∨ (97 ≤ b ∧ b ≤ 102) := by
  obtain ⟨ds, hlt, _, htext, _⟩ := hexText_digits n
  rw [htext] at h
  obtain ⟨d, hd, rfl⟩ := List.mem_map.mp h
  exact hexDigit_range (hlt d hd)

theorem splitSign_of_ne {b : UInt8} (hplus : b ≠ 43) (hminus : b ≠ 45) (text : List UInt8) :
    splitSign (b :: text) = (false, b :: text) := by
  unfold splitSign
  split
  next heq => exact absurd (List.cons.inj heq).1 hplus
  next heq => exact absurd (List.cons.inj heq).1 hminus
  next => rfl

theorem dropPrefix_of_ne {text : List UInt8} (h : ∀ b ∈ text, b ≠ 120 ∧ b ≠ 88) :
    dropPrefix text = text := by
  unfold dropPrefix
  split
  next => exact absurd rfl (h 120 (by simp)).1
  next => exact absurd rfl (h 88 (by simp)).2
  next => exact absurd rfl (h 120 (by simp)).1
  next => exact absurd rfl (h 88 (by simp)).2
  next => rfl

/-- A text of digits is read as their number. -/
theorem intHex_digits {ds : List Nat} (hlt : ∀ d ∈ ds, d < 16) (hne : ds ≠ []) :
    intHex (ds.map hexDigit) = some ((ds.foldl (fun v d => 16 * v + d) 0 : Nat) : Int) := by
  obtain ⟨d, rest, rfl⟩ := List.exists_cons_of_ne_nil hne
  have hrange := hexDigit_range (hlt d List.mem_cons_self)
  have hspace : isSpace (hexDigit d) = false := by
    unfold isSpace
    grind
  have hplus : hexDigit d ≠ 43 := by grind
  have hminus : hexDigit d ≠ 45 := by grind
  have hunder : hexDigit d ≠ 95 := by grind
  have hprefix : ∀ b ∈ (d :: rest).map hexDigit, b ≠ 120 ∧ b ≠ 88 := by
    intro b hb
    obtain ⟨x, hx, rfl⟩ := List.mem_map.mp hb
    have hx := hexDigit_range (hlt x hx)
    grind
  have hstart : ((d :: rest).map hexDigit).dropWhile isSpace = hexDigit d :: rest.map hexDigit := by
    rw [List.map_cons, List.dropWhile_cons_of_neg (by rw [hspace]; exact Bool.false_ne_true)]
  have hsign := splitSign_of_ne hplus hminus (rest.map hexDigit)
  have hdrop := dropPrefix_of_ne hprefix
  have htake := takeHex_digits hlt 0
  rw [List.map_cons] at hdrop htake
  unfold intHex
  rw [hstart, hsign]
  simp only [hdrop, htake]
  simp [hunder]

/-- The text of a number is read as the number. -/
theorem intHex_hexText (n : Nat) : intHex (hexText n) = some (n : Int) := by
  obtain ⟨ds, hlt, hne, htext, hvalue⟩ := hexText_digits n
  rw [htext, intHex_digits hlt hne, hvalue]

end PyBytes
