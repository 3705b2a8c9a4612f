import Mathlib.Algebra.Order.Ring.Nat
import Mathlib.Data.List.TakeWhile
import Speakeasy.ByteMemory
import Speakeasy.PyBytes

namespace Speakeasy

def einval : Nat := 22
def erange : Nat := 34

/-- A byte of `DIGITS`. -/
def digitByte (d : Nat) : UInt8 := UInt8.ofNat (if d < 10 then 48 + d else 87 + d)

def digitBytes : List UInt8 := (List.range 36).map digitByte

/-- `bytes.lower` on one byte. -/
def lowerByte (c : UInt8) : UInt8 := if 65 ≤ c ∧ c ≤ 90 then c + 32 else c

def getDigit (c : UInt8) (base : Nat) : Option Nat :=
  match digitBytes.findIdx? fun b => decide (b = lowerByte c) with
  | some d => if d < base then some d else none
  | none => none

/-- The loop over the digits: the value after them, and their number. -/
def takeDigits (base : Nat) : Nat → List UInt8 → Nat × Nat
  | val, [] => (val, 0)
  | val, c :: text =>
    match getDigit c base with
    | some d => ((takeDigits base (val * base + d) text).1, (takeDigits base (val * base + d) text).2 + 1)
    | none => (val, 0)

example : takeDigits 10 7 [50, 97] = (72, 1) := by
  rw [takeDigits]
  rfl

def isDigit (base : Nat) (c : UInt8) : Bool := (getDigit c base).isSome

/-- A text starts with `0x` and a digit. -/
def hexPrefix : List UInt8 → Bool
  | 48 :: x :: c :: _ => lowerByte x = 120 && isDigit 16 c
  | _ => false

/-- The sign, and the number of bytes that it takes. -/
def takeSign : List UInt8 → Int × Nat
  | 45 :: _ => (-1, 1)
  | 43 :: _ => (1, 1)
  | _ => (1, 0)

/-- The base of the digits, and the number of bytes of its prefix. -/
def takeBase (base : Nat) (text : List UInt8) : Nat × Nat :=
  if (base = 0 ∨ base = 16) ∧ hexPrefix text then (16, 2)
  else if base = 0 then (if text.head? = some 48 then 8 else 10, 0)
  else (base, 0)

def parseCInteger (text : List UInt8) (base width : Nat) : Int × Nat :=
  let text := if width = 0 then text else text.take width
  let blanks := (text.takeWhile PyBytes.isSpace).length
  let (sign, signs) := takeSign (text.drop blanks)
  let (digitBase, marks) := takeBase base (text.drop (blanks + signs))
  let (val, used) := takeDigits digitBase 0 (text.drop (blanks + signs + marks))
  if 0 < used then (sign * val, blanks + signs + marks + used) else (0, 0)

/-! The numbers of `strtol`, which store the end of the number in the guest. -/

/-- What a call returns, the pointer that it stores with the place of the store, and the `errno` that it sets. -/
structure NumberResult where
  value : Int
  stored : Option (Nat × Nat)
  errno : Option Nat
deriving DecidableEq, Repr

/-- The store of an end pointer, when the guest wants one. -/
def endPointer (string endPtr used : Nat) : Option (Nat × Nat) :=
  if endPtr ≠ 0 then some (endPtr, string + used) else none

def strtol (text : List UInt8) (string endPtr base : Nat) : NumberResult :=
  let (val, used) := parseCInteger text base 0
  ⟨max (-0x80000000) (min val 0x7FFFFFFF), endPointer string endPtr used, none⟩

def strtoul (text : List UInt8) (string endPtr base : Nat) : NumberResult :=
  let (val, used) := parseCInteger text base 0
  ⟨if 0xFFFFFFFF < val.natAbs then 0xFFFFFFFF else val % 0x100000000, endPointer string endPtr used, none⟩

/-- `strtoi64` on narrow text, before `return_int64`. -/
def strtoi64 (text : List UInt8) (string endPtr base : Nat) (signed : Bool) : NumberResult :=
  let (val, used) := parseCInteger text base 0
  let stored := endPointer string endPtr used
  if signed ∧ ¬(-(2 ^ 63) ≤ val ∧ val < 2 ^ 63) then
    ⟨if val < 0 then -(2 ^ 63) else 2 ^ 63 - 1, stored, some erange⟩
  else if ¬signed ∧ 2 ^ 64 ≤ val.natAbs then ⟨2 ^ 64 - 1, stored, some erange⟩
  else ⟨val, stored, none⟩

/-! The texts of integers. -/

/-- The loop over the digits of a value, the last one first. -/
def digitLoop (radix : Nat) : Nat → Nat → List UInt8 → List UInt8
  | 0, _, digits => digits
  | fuel + 1, val, digits =>
    if val / radix = 0 then digitByte (val % radix) :: digits
    else digitLoop radix fuel (val / radix) (digitByte (val % radix) :: digits)

def digitText (radix val : Nat) : List UInt8 := digitLoop radix (val + 1) val []

/-- `format_int32` -/
def formatInt32 (val radix : Nat) : List UInt8 :=
  if ¬(2 ≤ radix ∧ radix ≤ 36) then []
  else
    let val := val % 0x100000000
    if radix = 10 ∧ 0x80000000 ≤ val then 45 :: digitText radix (0x100000000 - val) else digitText radix val

/-- `text.encode` for ASCII text, of characters of `width` bytes. -/
def encodeDigits (width : Nat) (text : List UInt8) : List UInt8 :=
  text.flatMap fun c => c :: List.replicate (width - 1) 0

/-- The arguments of `convert_int_s`. A 64-bit value takes two slots on x86. -/
def intArgs (ptrSize bits : Nat) (argv : List Nat) : Option (Nat × Nat × Nat × Nat) :=
  if bits = 64 ∧ ptrSize = 4 then
    match argv with
    | [lo, hi, buf, size, radix] => some (hi <<< 32 ||| lo, buf, size, radix)
    | _ => none
  else
    match argv with
    | val :: buf :: size :: radix :: _ => some (val, buf, size, radix)
    | _ => none

/-- The text of a value of some bits, and whether it has a sign. -/
def intText (bits : Nat) (signed : Bool) (radix val : Nat) : Bool × List UInt8 :=
  let val := val % 2 ^ bits
  let negative := signed && decide (radix = 10) && decide (2 ^ (bits - 1) ≤ val)
  (negative, if negative then 45 :: digitText radix (2 ^ bits - val) else digitText radix val)

structure ConvertResult where
  rv : Nat
  errno : Option Nat
  memory : ByteMemory

/-- `convert_int_s`, from its arguments on. -/
def convertInt (memory : ByteMemory) (val buf size radix bits : Nat) (signed : Bool) (width : Nat) : ConvertResult :=
  let (negative, text) := intText bits signed radix val
  if buf = 0 ∨ size = 0 then ⟨einval, some einval, memory⟩
  else
    let memory := memory.writeBytes buf (List.replicate width 0)
    if size ≤ 1 + negative.toNat then ⟨erange, some erange, memory⟩
    else if ¬(2 ≤ radix ∧ radix ≤ 36) then ⟨einval, some einval, memory⟩
    else if size ≤ text.length then ⟨erange, some erange, memory⟩
    else ⟨0, none, memory.writeBytes buf (encodeDigits width (text ++ [0]))⟩

def convertIntS (ptrSize : Nat) (memory : ByteMemory) (argv : List Nat) (bits : Nat) (signed : Bool) (width : Nat) :
    Option ConvertResult :=
  (intArgs ptrSize bits argv).map fun (val, buf, size, radix) => convertInt memory val buf size radix bits signed width

/-! What the texts and the numbers are. -/

def IsSign (sign : List UInt8) : Prop := sign = [] ∨ sign = [43] ∨ sign = [45]

/-- The digits of a number, with the prefix of base 16. -/
inductive NumberBody (base : Nat) : List UInt8 → Prop
  | hex {x digits} : base = 0 ∨ base = 16 → lowerByte x = 120 → digits ≠ [] → (∀ c ∈ digits, isDigit 16 c) →
    NumberBody base (48 :: x :: digits)
  | octal {digits} : base = 0 → (∀ c ∈ digits, isDigit 8 c) → NumberBody base (48 :: digits)
  | decimal {c digits} : base = 0 → c ≠ 48 → (∀ d ∈ c :: digits, isDigit 10 d) → NumberBody base (c :: digits)
  | plain {c digits} : base ≠ 0 → (∀ d ∈ c :: digits, isDigit base d) → NumberBody base (c :: digits)

/-- Blanks, a sign, a prefix that the base allows, and digits. -/
def IsNumber (base : Nat) (text : List UInt8) : Prop :=
  ∃ blanks sign body, text = blanks ++ sign ++ body ∧ (∀ c ∈ blanks, PyBytes.isSpace c) ∧ IsSign sign ∧
    NumberBody base body

/-- The length of the longest number at the start of a text, or 0 when there is none. -/
def LongestNumber (base : Nat) (text : List UInt8) (used : Nat) : Prop :=
  (used = 0 ∨ IsNumber base (text.take used)) ∧ ∀ number, number <+: text → IsNumber base number → number.length ≤ used

theorem findIdx_digitByte {d : Nat} (h : d < 36) :
    (digitBytes.findIdx? fun b => decide (b = lowerByte (digitByte d))) = some d := by
  have hall : ∀ d < 36, (digitBytes.findIdx? fun b => decide (b = lowerByte (digitByte d))) = some d := by decide
  exact hall d h

theorem getDigit_digitByte {d base : Nat} (h : d < 36) (hbase : d < base) : getDigit (digitByte d) base = some d := by
  unfold getDigit
  rw [findIdx_digitByte h]
  exact if_pos hbase

theorem isDigit_of_not_found {c : UInt8} (h : (digitBytes.findIdx? fun b => decide (b = lowerByte c)) = none) (base : Nat) :
    isDigit base c = false := by
  unfold isDigit getDigit
  rw [h]
  rfl

/-- A digit is no blank and no sign. -/
theorem not_digit_of_space {c : UInt8} (h : PyBytes.isSpace c = true) (base : Nat) : isDigit base c = false := by
  refine isDigit_of_not_found ?_ base
  have hall : ∀ n < 256, PyBytes.isSpace (UInt8.ofNat n) = true →
      (digitBytes.findIdx? fun b => decide (b = lowerByte (UInt8.ofNat n))) = none := by decide +kernel
  have hc := hall c.toNat c.toNat_lt
  rw [UInt8.ofNat_toNat] at hc
  exact hc h

theorem isDigit_zero {base : Nat} (h : 0 < base) : isDigit base 48 = true := by
  unfold isDigit getDigit
  rw [show (digitBytes.findIdx? fun b => decide (b = lowerByte 48)) = some 0 by decide]
  simp [h]

/-- The letter of the prefix is no digit of a base up to 16. -/
theorem not_digit_of_mark {x : UInt8} (h : lowerByte x = 120) {base : Nat} (hbase : base ≤ 16) : isDigit base x = false := by
  unfold isDigit getDigit
  rw [h, show (digitBytes.findIdx? fun b => decide (b = 120)) = some 33 by decide]
  simp only [if_neg (show ¬33 < base by omega)]
  rfl

theorem takeDigits_used (base val : Nat) (text : List UInt8) :
    (takeDigits base val text).2 = (text.takeWhile (isDigit base)).length := by
  induction text generalizing val with
  | nil => rfl
  | cons c text ih =>
    rw [takeDigits]
    cases hd : getDigit c base with
    | none =>
      have hno : isDigit base c = false := by rw [isDigit, hd]; rfl
      rw [List.takeWhile_cons_of_neg (by rw [hno]; exact Bool.false_ne_true)]
      rfl
    | some d =>
      have hyes : isDigit base c = true := by rw [isDigit, hd]; rfl
      rw [List.takeWhile_cons_of_pos hyes, List.length_cons, ← ih]

theorem takeDigits_cons {base d : Nat} (hd : d < 36) (hbase : d < base) (val : Nat) (text : List UInt8) :
    takeDigits base val (digitByte d :: text) =
      ((takeDigits base (val * base + d) text).1, (takeDigits base (val * base + d) text).2 + 1) := by
  rw [takeDigits, getDigit_digitByte hd hbase]

/-- The loop puts the digits of a value in front, which reading them gives back. -/
theorem digitLoop_spec {radix : Nat} (hlow : 2 ≤ radix) (hhigh : radix ≤ 36) {fuel val : Nat} (hfuel : val < fuel)
    (rest : List UInt8) : ∃ digits : List UInt8, digitLoop radix fuel val rest = digits ++ rest ∧ digits ≠ [] ∧
      (∀ c ∈ digits, ∃ d < radix, c = digitByte d) ∧
      takeDigits radix 0 (digits ++ rest) =
        ((takeDigits radix val rest).1, (takeDigits radix val rest).2 + digits.length) := by
  induction fuel generalizing val rest with
  | zero => cases hfuel
  | succ fuel ih =>
    have hmod := Nat.mod_lt val (show 0 < radix by omega)
    have hdiv := Nat.div_add_mod val radix
    rw [digitLoop]
    by_cases hlast : val / radix = 0
    · rw [if_pos hlast]
      rw [hlast, Nat.mul_zero, Nat.zero_add] at hdiv
      refine ⟨[digitByte (val % radix)], rfl, List.cons_ne_nil _ _,
        fun c hc => ⟨val % radix, hmod, List.mem_singleton.mp hc⟩, ?_⟩
      rw [List.singleton_append, takeDigits_cons (by omega) hmod, Nat.zero_mul, Nat.zero_add, hdiv]
      rfl
    · rw [if_neg hlast]
      have hpos : 0 < val := by
        refine Nat.pos_of_ne_zero fun hzero => hlast ?_
        rw [hzero, Nat.zero_div]
      have hless : val / radix < val := Nat.div_lt_self hpos hlow
      obtain ⟨digits, heq, _, hall, htake⟩ := ih (show val / radix < fuel by omega) (digitByte (val % radix) :: rest)
      refine ⟨digits ++ [digitByte (val % radix)], ?_, List.append_ne_nil_of_right_ne_nil _ (List.cons_ne_nil _ _), ?_, ?_⟩
      · rw [heq, List.append_assoc, List.singleton_append]
      · intro c hc
        cases List.mem_append.mp hc with
        | inl hin => exact hall c hin
        | inr hin => exact ⟨val % radix, hmod, List.mem_singleton.mp hin⟩
      · rw [List.append_assoc, List.singleton_append, htake, takeDigits_cons (by omega) hmod, List.length_append,
          List.length_singleton, Nat.mul_comm, hdiv]
        exact Prod.ext rfl (by simp only; omega)

theorem digitText_spec {radix : Nat} (hlow : 2 ≤ radix) (hhigh : radix ≤ 36) (val : Nat) :
    digitText radix val ≠ [] ∧ (∀ c ∈ digitText radix val, ∃ d < radix, c = digitByte d) ∧
      takeDigits radix 0 (digitText radix val) = (val, (digitText radix val).length) := by
  obtain ⟨digits, heq, hne, hall, htake⟩ := digitLoop_spec hlow hhigh (Nat.lt_succ_self val) []
  rw [List.append_nil] at heq htake
  unfold digitText
  rw [heq]
  exact ⟨hne, hall, htake.trans (Prod.ext rfl (Nat.zero_add _))⟩

theorem takeSign_of_ne {c : UInt8} (hplus : c ≠ 43) (hminus : c ≠ 45) (text : List UInt8) :
    takeSign (c :: text) = (1, 0) := by
  unfold takeSign
  split
  next heq => exact absurd (List.cons.inj heq).1 hminus
  next heq => exact absurd (List.cons.inj heq).1 hplus
  next => rfl

theorem digit_ne_sign {base : Nat} {c : UInt8} (h : isDigit base c = true) : c ≠ 43 ∧ c ≠ 45 := by
  constructor
  · rintro rfl
    rw [isDigit_of_not_found (by decide) base] at h
    cases h
  · rintro rfl
    rw [isDigit_of_not_found (by decide) base] at h
    cases h

theorem digit_not_space {base : Nat} {c : UInt8} (h : isDigit base c = true) : PyBytes.isSpace c = false := by
  cases hspace : PyBytes.isSpace c with
  | false => rfl
  | true =>
    rw [not_digit_of_space hspace base] at h
    cases h

theorem isDigit_digitByte {d base : Nat} (hd : d < 36) (hbase : d < base) : isDigit base (digitByte d) = true := by
  rw [isDigit, getDigit_digitByte hd hbase]
  rfl

theorem takeBase_of_not_hex {base : Nat} (hbase : base ≠ 0) {text : List UInt8}
    (hhex : base = 16 → hexPrefix text = false) : takeBase base text = (base, 0) := by
  unfold takeBase
  rw [if_neg, if_neg hbase]
  rintro ⟨hor, htrue⟩
  rw [hhex (hor.resolve_left hbase)] at htrue
  cases htrue

/-- The digits of a value have no prefix. -/
theorem digitText_unprefixed {radix : Nat} (hlow : 2 ≤ radix) (hhigh : radix ≤ 36) (val : Nat) (h16 : radix = 16) :
    hexPrefix (digitText radix val) = false := by
  obtain ⟨_, hall, _⟩ := digitText_spec hlow hhigh val
  cases hprefix : hexPrefix (digitText radix val) with
  | false => rfl
  | true =>
    exfalso
    unfold hexPrefix at hprefix
    split at hprefix
    next x c rest heq =>
      have hmark : lowerByte x = 120 := of_decide_eq_true (Bool.and_eq_true_iff.mp hprefix).1
      obtain ⟨d, hd, rfl⟩ := hall x (by rw [heq]; exact List.mem_cons_of_mem _ List.mem_cons_self)
      have hno := not_digit_of_mark hmark (show radix ≤ 16 by omega)
      rw [isDigit_digitByte (by omega) hd] at hno
      cases hno
    next => cases hprefix

/-- A text of a value, after its sign. -/
theorem parse_digitText {radix : Nat} (hlow : 2 ≤ radix) (hhigh : radix ≤ 36) (val : Nat) (sign : List UInt8) {s : Int}
    (hsign : sign = [] ∧ s = 1 ∨ sign = [45] ∧ s = -1) :
    parseCInteger (sign ++ digitText radix val) radix 0 = (s * val, (sign ++ digitText radix val).length) := by
  obtain ⟨hne, hall, htake⟩ := digitText_spec hlow hhigh val
  have hprefix := takeBase_of_not_hex (show radix ≠ 0 by omega) (digitText_unprefixed hlow hhigh val)
  obtain ⟨c, rest, hcons⟩ := List.exists_cons_of_ne_nil hne
  obtain ⟨d, hd, hc⟩ := hall c (by rw [hcons]; exact List.mem_cons_self)
  have hdigit : isDigit radix c = true := hc ▸ isDigit_digitByte (by omega) hd
  have hlen : 0 < (digitText radix val).length := List.length_pos_iff.mpr hne
  have hblanks : ((sign ++ digitText radix val).takeWhile PyBytes.isSpace).length = 0 := by
    cases hsign with
    | inl hnone =>
      rw [hnone.1, hcons, List.nil_append,
        List.takeWhile_cons_of_neg (by rw [digit_not_space hdigit]; exact Bool.false_ne_true)]
      rfl
    | inr hminus => rw [hminus.1]; rfl
  have hsigns : takeSign (sign ++ digitText radix val) = (s, sign.length) := by
    cases hsign with
    | inl hnone =>
      rw [hnone.1, hnone.2, hcons]
      exact takeSign_of_ne (digit_ne_sign hdigit).1 (digit_ne_sign hdigit).2 rest
    | inr hminus => rw [hminus.1, hminus.2]; rfl
  have hdrop : (sign ++ digitText radix val).drop sign.length = digitText radix val := List.drop_left
  unfold parseCInteger
  simp only [if_true, hblanks, List.drop_zero, hsigns, Nat.zero_add, hdrop, hprefix, Nat.add_zero, htake, if_pos hlen,
    List.length_append]

end Speakeasy
