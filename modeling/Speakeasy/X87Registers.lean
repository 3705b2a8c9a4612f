import Mathlib.Data.Nat.Bitwise
import Mathlib.Data.Nat.Size
import Speakeasy.BinaryFloats

namespace Speakeasy

/-- `double_bits_to_fp80` -/
def doubleBitsToFp80 (bits : Nat) : Nat × Nat :=
  let sign := bits >>> 63 <<< 15
  let exponent := bits >>> 52 &&& 0x7FF
  let fraction := bits &&& (1 <<< 52 - 1)
  if exponent = 0x7FF then (1 <<< 63 ||| fraction <<< 11, sign ||| 0x7FFF)
  else if exponent = 0 then
    if fraction = 0 then (0, sign)
    else
      let shift := 53 - fraction.size
      (fraction <<< (11 + shift), sign ||| (16383 - 1022 - shift))
  else (1 <<< 63 ||| fraction <<< 11, sign ||| (exponent + 16383 - 1023))

def infBits : Nat := 0x7FF <<< 52

def nanBits : Nat := 0xFFF <<< 51

/-- The product with the sign, which is 1.0 or -1.0. -/
def signed (negative : Bool) (bits : Nat) : Nat := if negative then bits ^^^ 1 <<< 63 else bits

/-- `fp80_to_double_bits`. The answer of `ldexp` is the bits of a double, or none for an `OverflowError`. -/
def fp80ToDoubleBits (ldexp : Nat → Int → Option Nat) (mantissa signExponent : Nat) : Nat :=
  let negative := signExponent &&& 0x8000 ≠ 0
  let exponent := signExponent &&& 0x7FFF
  if exponent = 0x7FFF then
    if mantissa &&& (1 <<< 63 - 1) ≠ 0 then nanBits else signed negative infBits
  else
    match ldexp mantissa ((exponent : Int) - 16383 - 63) with
    | some value => signed negative value
    | none => signed negative infBits

/-- `ldexp` of a mantissa of 64 bits is exact on the values that a double has. -/
structure LdexpExact (ldexp : Nat → Int → Option Nat) : Prop where
  exact : ∀ {mantissa exponent bits}, mantissa < 2 ^ 64 → bits < 2 ^ 63 →
    Binary64.value bits = .finite false (scaled mantissa exponent) → ldexp mantissa exponent = some bits

section

variable {bits : Nat}

theorem exponent_eq (bits : Nat) : bits >>> 52 &&& 0x7FF = Binary64.exponent bits := by
  rw [Nat.shiftRight_eq_div_pow, show 0x7FF = 2 ^ 11 - 1 from rfl, Nat.and_two_pow_sub_one_eq_mod]
  rfl

theorem fraction_eq (bits : Nat) : bits &&& (1 <<< 52 - 1) = Binary64.fraction bits := by
  rw [Nat.one_shiftLeft, Nat.and_two_pow_sub_one_eq_mod]
  rfl

theorem fraction_lt (bits : Nat) : Binary64.fraction bits < 2 ^ 52 := Nat.mod_lt _ (by decide)

theorem exponent_lt (bits : Nat) : Binary64.exponent bits < 2 ^ 11 := Nat.mod_lt _ (by decide)

theorem mantissa_eq {fraction : Nat} (h : fraction < 2 ^ 52) :
    1 <<< 63 ||| fraction <<< 11 = 2 ^ 63 + fraction * 2 ^ 11 := by
  have hlt : fraction <<< 11 < 2 ^ 63 := by
    rw [Nat.shiftLeft_eq]
    omega
  rw [← Nat.shiftLeft_add_eq_or_of_lt hlt, Nat.one_shiftLeft, Nat.shiftLeft_eq]

theorem sign_eq {exponent : Nat} (h : exponent < 2 ^ 15) (bits : Nat) :
    bits >>> 63 <<< 15 ||| exponent = bits / 2 ^ 63 * 2 ^ 15 + exponent := by
  rw [← Nat.shiftLeft_add_eq_or_of_lt h, Nat.shiftLeft_eq, Nat.shiftRight_eq_div_pow]

/-! The fields of a register that has the sign of the double. -/

theorem extended_exponent {exponent : Nat} (h : exponent < 2 ^ 15) (bits : Nat) :
    Extended.exponent (bits / 2 ^ 63 * 2 ^ 15 + exponent) = exponent := by
  unfold Extended.exponent
  omega

theorem extended_negative {exponent : Nat} (h : exponent < 2 ^ 15) (bits : Nat) :
    Extended.negative (bits / 2 ^ 63 * 2 ^ 15 + exponent) = Binary64.negative bits := by
  have hdiv : (bits / 2 ^ 63 * 2 ^ 15 + exponent) / 2 ^ 15 = bits / 2 ^ 63 := by omega
  unfold Extended.negative Binary64.negative
  rw [hdiv]

theorem negative_eq (signExponent : Nat) :
    decide (signExponent &&& 0x8000 ≠ 0) = Extended.negative signExponent := by
  have hand : signExponent &&& 0x8000 = (signExponent.testBit 15).toNat * 2 ^ 15 := Nat.and_two_pow _ 15
  unfold Extended.negative
  rw [hand, ← Nat.testBit_eq_decide_div_mod_eq]
  cases signExponent.testBit 15 with
  | false => rfl
  | true => rfl

theorem signed_eq {value : Nat} (h : value < 2 ^ 63) (negative : Bool) :
    signed negative value = negative.toNat * 2 ^ 63 + value := by
  unfold signed
  cases negative with
  | false => simp
  | true =>
    have hdiv : (value ^^^ 2 ^ 63) / 2 ^ 63 = 1 := by
      rw [Nat.xor_div_two_pow, Nat.div_eq_of_lt h, Nat.div_self (Nat.two_pow_pos 63), Nat.zero_xor]
    have hmod : (value ^^^ 2 ^ 63) % 2 ^ 63 = value := by
      rw [Nat.xor_mod_two_pow, Nat.mod_eq_of_lt h, Nat.mod_self, Nat.xor_zero]
    rw [if_pos rfl, Nat.one_shiftLeft, Bool.toNat_true]
    omega

/-- The register that a double gives: its sign is the one of the double, and the rest depends on its kind. -/
inductive Converted (bits : Nat) : Nat × Nat → Prop
  | special (h : Binary64.exponent bits = 0x7FF) :
      Converted bits (2 ^ 63 + Binary64.fraction bits * 2 ^ 11, bits / 2 ^ 63 * 2 ^ 15 + 0x7FFF)
  | zero (h : Binary64.exponent bits = 0) (hzero : Binary64.fraction bits = 0) :
      Converted bits (0, bits / 2 ^ 63 * 2 ^ 15 + 0)
  | finite {mantissa exponent : Nat} (h : Binary64.exponent bits ≠ 0x7FF) (hpos : 0 < exponent)
      (hlt : exponent < 0x7FFF) (hnormal : 2 ^ 63 ≤ mantissa) (hmantissa : mantissa < 2 ^ 64)
      (hvalue : scaled mantissa (exponent - 16446) = scaled (Binary64.units bits) (-1074)) :
      Converted bits (mantissa, bits / 2 ^ 63 * 2 ^ 15 + exponent)

theorem doubleBitsToFp80_normal (hfinite : Binary64.exponent bits ≠ 0x7FF) (hnormal : Binary64.exponent bits ≠ 0) :
    Converted bits (2 ^ 63 + Binary64.fraction bits * 2 ^ 11,
      bits / 2 ^ 63 * 2 ^ 15 + (Binary64.exponent bits + 16383 - 1023)) := by
  have hfraction := fraction_lt bits
  have hexponent := exponent_lt bits
  refine Converted.finite hfinite (by omega) (by omega) (by omega) (by omega) ?_
  unfold Binary64.units
  have hshift : 2 ^ 63 + Binary64.fraction bits * 2 ^ 11 = (2 ^ 52 + Binary64.fraction bits) * 2 ^ 11 := by omega
  have he : ((Binary64.exponent bits + 16383 - 1023 : Nat) : Int) - 16446 + (11 : Nat) =
      -1074 + (Binary64.exponent bits - 1 : Nat) := by omega
  rw [if_neg hnormal, hshift, scaled_shift, scaled_shift, he]

theorem doubleBitsToFp80_subnormal (hzero : Binary64.exponent bits = 0) (hne : Binary64.fraction bits ≠ 0) :
    Converted bits (Binary64.fraction bits <<< (11 + (53 - (Binary64.fraction bits).size)),
      bits / 2 ^ 63 * 2 ^ 15 + (16383 - 1022 - (53 - (Binary64.fraction bits).size))) := by
  have hle : (Binary64.fraction bits).size ≤ 52 := Nat.size_le.mpr (fraction_lt bits)
  have hpos : 0 < (Binary64.fraction bits).size := Nat.size_pos.mpr (Nat.pos_of_ne_zero hne)
  generalize hn : (Binary64.fraction bits).size = n at hle hpos ⊢
  -- The shift puts the top bit of the fraction at bit 63.
  have hlow : 2 ^ (n - 1) ≤ Binary64.fraction bits := Nat.lt_size.mp (by omega)
  have hhigh : Binary64.fraction bits < 2 ^ n := Nat.size_le.mp (by omega)
  have hsum : 11 + (53 - n) = 64 - n := by omega
  rw [hsum, Nat.shiftLeft_eq]
  refine Converted.finite (by omega) (by omega) (by omega) ?_ ?_ ?_
  · calc 2 ^ 63 = 2 ^ (n - 1) * 2 ^ (64 - n) := by rw [← Nat.pow_add]; congr 1; omega
      _ ≤ Binary64.fraction bits * 2 ^ (64 - n) := Nat.mul_le_mul_right _ hlow
  · calc Binary64.fraction bits * 2 ^ (64 - n) < 2 ^ n * 2 ^ (64 - n) :=
          Nat.mul_lt_mul_of_pos_right hhigh (Nat.two_pow_pos _)
      _ = 2 ^ 64 := by rw [← Nat.pow_add]; congr 1; omega
  · have he : ((16383 - 1022 - (53 - n) : Nat) : Int) - 16446 + (64 - n : Nat) = -1074 := by omega
    unfold Binary64.units
    rw [if_pos hzero, scaled_shift, he]

theorem doubleBitsToFp80_converted (bits : Nat) : Converted bits (doubleBitsToFp80 bits) := by
  have hfraction := fraction_lt bits
  have hexponent := exponent_lt bits
  unfold doubleBitsToFp80
  simp only [exponent_eq, fraction_eq]
  by_cases hspecial : Binary64.exponent bits = 0x7FF
  · rw [if_pos hspecial, mantissa_eq hfraction, sign_eq (by omega)]
    exact Converted.special hspecial
  · rw [if_neg hspecial]
    by_cases hzero : Binary64.exponent bits = 0
    · rw [if_pos hzero]
      by_cases hnone : Binary64.fraction bits = 0
      · rw [if_pos hnone, ← Nat.or_zero (bits >>> 63 <<< 15), sign_eq (by omega)]
        exact Converted.zero hzero hnone
      · rw [if_neg hnone, sign_eq (by omega)]
        exact doubleBitsToFp80_subnormal hzero hnone
    · rw [if_neg hzero, mantissa_eq hfraction, sign_eq (by omega)]
      exact doubleBitsToFp80_normal hspecial hzero

/-! What the register says of the double. -/

theorem Converted.value {register : Nat × Nat} (h : Converted bits register) (hnan : Binary64.value bits ≠ .nan) :
    Extended.value register.1 register.2 = Binary64.value bits := by
  unfold Extended.value
  cases h with
  | special hspecial =>
    have hfraction : Binary64.fraction bits = 0 := by
      by_contra hne
      apply hnan
      unfold Binary64.value
      rw [if_pos hspecial, if_neg hne]
    have hmantissa : (2 ^ 63 + Binary64.fraction bits * 2 ^ 11) % 2 ^ 63 = 0 := by omega
    unfold Binary64.value
    rw [if_pos (extended_exponent (by omega) bits), extended_negative (by omega), if_pos hspecial, if_pos hfraction,
      if_pos hmantissa]
  | zero hzero hnone =>
    have hfinite : Binary64.exponent bits ≠ 0x7FF := by omega
    have hexponent := extended_exponent (show 0 < 2 ^ 15 by omega) bits
    rw [if_neg (by rw [hexponent]; omega), if_pos hexponent, extended_negative (by omega),
      Binary64.value_of_finite hfinite]
    congr 1
    unfold Binary64.units
    rw [if_pos hzero, hnone, scaled_eq_zero.mpr rfl, scaled_eq_zero.mpr rfl]
  | @finite mantissa exponent hfinite hpos hlt hnormal hmantissa hvalue =>
    have hexponent := extended_exponent (show exponent < 2 ^ 15 by omega) bits
    rw [if_neg (by rw [hexponent]; omega), if_neg (by rw [hexponent]; omega), hexponent, extended_negative (by omega),
      Binary64.value_of_finite hfinite, hvalue]

theorem Converted.normalised {register : Nat × Nat} (h : Converted bits register) (hbits : bits < 2 ^ 64) :
    Extended.Normalised register.1 register.2 := by
  have hfraction := fraction_lt bits
  have htop : ∀ {mantissa : Nat}, 2 ^ 63 ≤ mantissa → mantissa < 2 ^ 64 → mantissa.testBit 63 = true := by
    intro mantissa hlow hhigh
    rw [Nat.testBit_eq_decide_div_mod_eq, decide_eq_true_eq]
    omega
  cases h with
  | special hspecial =>
    have hhigh : 2 ^ 63 + Binary64.fraction bits * 2 ^ 11 < 2 ^ 64 := by omega
    exact ⟨hhigh, by show _ < 2 ^ 16; omega, Or.inl (htop (by omega) hhigh)⟩
  | zero hzero hnone =>
    exact ⟨Nat.two_pow_pos 64, by show _ < 2 ^ 16; omega, Or.inr ⟨rfl, extended_exponent (by omega) bits⟩⟩
  | finite hfinite hpos hlt hnormal hmantissa hvalue =>
    exact ⟨hmantissa, by show _ < 2 ^ 16; omega, Or.inl (htop hnormal hmantissa)⟩

theorem signed_magnitude (hbits : bits < 2 ^ 64) : signed (Binary64.negative bits) (bits % 2 ^ 63) = bits := by
  have hsign : (Binary64.negative bits).toNat = bits / 2 ^ 63 := by
    unfold Binary64.negative
    by_cases h : bits / 2 ^ 63 % 2 = 1
    · rw [decide_eq_true h, Bool.toNat_true]
      omega
    · rw [decide_eq_false h, Bool.toNat_false]
      omega
  rw [signed_eq (Nat.mod_lt _ (Nat.two_pow_pos 63)), hsign]
  omega

/-- The bits without the sign are those of the magnitude. -/
theorem value_magnitude (hfinite : Binary64.exponent bits ≠ 0x7FF) :
    Binary64.value (bits % 2 ^ 63) = .finite false (scaled (Binary64.units bits) (-1074)) := by
  have hexponent : Binary64.exponent (bits % 2 ^ 63) = Binary64.exponent bits := by
    unfold Binary64.exponent
    omega
  have hfraction : Binary64.fraction (bits % 2 ^ 63) = Binary64.fraction bits := by
    unfold Binary64.fraction
    omega
  have hnegative : Binary64.negative (bits % 2 ^ 63) = false := by
    unfold Binary64.negative
    rw [decide_eq_false_iff_not]
    omega
  have hunits : Binary64.units (bits % 2 ^ 63) = Binary64.units bits := by
    unfold Binary64.units
    rw [hexponent, hfraction]
  rw [Binary64.value_of_finite (by rw [hexponent]; exact hfinite), hnegative, hunits]

theorem exponent_field (signExponent : Nat) : signExponent &&& 0x7FFF = Extended.exponent signExponent := by
  rw [show 0x7FFF = 2 ^ 15 - 1 from rfl, Nat.and_two_pow_sub_one_eq_mod]
  rfl

/-- A finite register goes back to the double that has its value. -/
theorem fp80ToDoubleBits_finite {ldexp : Nat → Int → Option Nat} (hldexp : LdexpExact ldexp) (hbits : bits < 2 ^ 64)
    (hfinite : Binary64.exponent bits ≠ 0x7FF) {mantissa exponent : Nat} (hmantissa : mantissa < 2 ^ 64)
    (hlt : exponent < 0x7FFF) (hvalue : scaled mantissa (exponent - 16446) = scaled (Binary64.units bits) (-1074)) :
    fp80ToDoubleBits ldexp mantissa (bits / 2 ^ 63 * 2 ^ 15 + exponent) = bits := by
  have hmagnitude := value_magnitude hfinite
  rw [← hvalue] at hmagnitude
  have hanswer := hldexp.exact hmantissa (Nat.mod_lt _ (Nat.two_pow_pos 63)) hmagnitude
  have hexponent : (exponent : Int) - 16383 - 63 = exponent - 16446 := by omega
  unfold fp80ToDoubleBits
  simp only [negative_eq, exponent_field]
  rw [extended_exponent (by omega), extended_negative (by omega), if_neg (by omega), hexponent, hanswer]
  exact signed_magnitude hbits

theorem Converted.toDoubleBits {ldexp : Nat → Int → Option Nat} (hldexp : LdexpExact ldexp) {register : Nat × Nat}
    (h : Converted bits register) (hbits : bits < 2 ^ 64) (hnan : Binary64.value bits ≠ .nan) :
    fp80ToDoubleBits ldexp register.1 register.2 = bits := by
  cases h with
  | special hspecial =>
    have hfraction : Binary64.fraction bits = 0 := by
      by_contra hne
      apply hnan
      unfold Binary64.value
      rw [if_pos hspecial, if_neg hne]
    have hmantissa : ¬(2 ^ 63 + 0 * 2 ^ 11) &&& (1 <<< 63 - 1) ≠ 0 := by decide
    have hmagnitude : bits % 2 ^ 63 = infBits := by
      unfold Binary64.exponent at hspecial
      unfold Binary64.fraction at hfraction
      show bits % 2 ^ 63 = 0x7FF * 2 ^ 52
      omega
    unfold fp80ToDoubleBits
    simp only [negative_eq, exponent_field, hfraction]
    rw [extended_exponent (by omega), extended_negative (by omega), if_pos rfl, if_neg hmantissa, ← hmagnitude]
    exact signed_magnitude hbits
  | zero hzero hnone =>
    refine fp80ToDoubleBits_finite hldexp hbits (by omega) (Nat.two_pow_pos 64) (by omega) ?_
    unfold Binary64.units
    rw [if_pos hzero, hnone, scaled_eq_zero.mpr rfl, scaled_eq_zero.mpr rfl]
  | finite hfinite hpos hlt hnormal hmantissa hvalue =>
    exact fp80ToDoubleBits_finite hldexp hbits hfinite hmantissa hlt hvalue

/-- A double that is not a NaN keeps its value in the register, which is normalised, and comes back. -/
theorem x87_exact {ldexp : Nat → Int → Option Nat} (hldexp : LdexpExact ldexp) (hbits : bits < 2 ^ 64)
    (hnan : Binary64.value bits ≠ .nan) :
    Extended.value (doubleBitsToFp80 bits).1 (doubleBitsToFp80 bits).2 = Binary64.value bits ∧
      Extended.Normalised (doubleBitsToFp80 bits).1 (doubleBitsToFp80 bits).2 ∧
      fp80ToDoubleBits ldexp (doubleBitsToFp80 bits).1 (doubleBitsToFp80 bits).2 = bits := by
  have hconverted := doubleBitsToFp80_converted bits
  exact ⟨hconverted.value hnan, hconverted.normalised hbits, hconverted.toDoubleBits hldexp hbits hnan⟩

end

/-- `ldexp` for the numbers that a double has, as a count of the smallest double. -/
def scaleUnits (mantissa : Nat) (exponent : Int) : Option Nat :=
  let shift := exponent + 1074
  if 0 ≤ shift then Binary64.encode (mantissa <<< shift.toNat) else Binary64.encode (mantissa >>> (-shift).toNat)

theorem scaleUnits_exact : LdexpExact scaleUnits where
  exact := by
    intro mantissa exponent bits _ hbits hvalue
    have hfinite : Binary64.exponent bits ≠ 0x7FF := by
      intro hspecial
      unfold Binary64.value at hvalue
      rw [if_pos hspecial] at hvalue
      split at hvalue
      next => cases hvalue
      next => cases hvalue
    have hencode := Binary64.encode_units hbits hfinite
    rw [Binary64.value_of_finite hfinite] at hvalue
    have hscaled := (FloatValue.finite.inj hvalue).2
    unfold scaleUnits
    by_cases hshift : 0 ≤ exponent + 1074
    · have hunits : Binary64.units bits = mantissa <<< (exponent + 1074).toNat := by
        have he : exponent = -1074 + ((exponent + 1074).toNat : Int) := by omega
        rw [Nat.shiftLeft_eq]
        apply scaled_inj (e := -1074)
        rw [scaled_shift, ← he, hscaled]
      rw [if_pos hshift, ← hunits, hencode]
    · have hmantissa : mantissa = Binary64.units bits * 2 ^ (-(exponent + 1074)).toNat := by
        have he : -1074 = exponent + ((-(exponent + 1074)).toNat : Int) := by omega
        apply scaled_inj (e := exponent)
        rw [scaled_shift, ← he, hscaled]
      rw [if_neg hshift, Nat.shiftRight_eq_div_pow, hmantissa, Nat.mul_div_cancel _ (Nat.two_pow_pos _), hencode]

/-- The negative double with the smallest magnitude. -/
theorem x87_exact_subnormal : doubleBitsToFp80 0x8000000000000001 = (1 <<< 63, 0xBBCD) ∧
    fp80ToDoubleBits scaleUnits (doubleBitsToFp80 0x8000000000000001).1 (doubleBitsToFp80 0x8000000000000001).2 =
      0x8000000000000001 := by
  have hnan : Binary64.value 0x8000000000000001 ≠ .nan := by
    have hfinite : Binary64.exponent 0x8000000000000001 ≠ 0x7FF := by decide
    rw [Binary64.value_of_finite hfinite]
    exact FloatValue.noConfusion
  exact ⟨by decide, (x87_exact scaleUnits_exact (by decide) hnan).2.2⟩

end Speakeasy
