import Mathlib.Algebra.Order.Field.Power
import Mathlib.Algebra.Order.Field.Rat
import Mathlib.Data.Nat.Log
import Mathlib.Tactic.Positivity

/-- `m * 2 ^ e` -/
def scaled (m : Nat) (e : Int) : ℚ := m * 2 ^ e

theorem scaled_shift (m k : Nat) (e : Int) : scaled (m * 2 ^ k) e = scaled m (e + k) := by
  unfold scaled
  rw [zpow_add₀ (by norm_num), zpow_natCast, Nat.cast_mul, Nat.cast_pow, Nat.cast_ofNat, mul_assoc,
    mul_comm ((2 : ℚ) ^ k)]

theorem scaled_inj {m n : Nat} {e : Int} (h : scaled m e = scaled n e) : m = n := by
  unfold scaled at h
  have hpos : (2 : ℚ) ^ e ≠ 0 := zpow_ne_zero e (by norm_num)
  exact Nat.cast_inj.mp (mul_right_cancel₀ hpos h)

theorem scaled_eq_zero {m : Nat} {e : Int} : scaled m e = 0 ↔ m = 0 := by
  unfold scaled
  rw [mul_eq_zero, Nat.cast_eq_zero, or_iff_left (zpow_ne_zero e (by norm_num))]

/-- The value of a floating point format. A zero has a sign. -/
inductive FloatValue
  | finite (negative : Bool) (magnitude : ℚ)
  | infinity (negative : Bool)
  | nan

/-! The double format of 64 bits. -/

namespace Binary64

variable (bits : Nat)

def negative : Bool := bits / 2 ^ 63 % 2 = 1

def exponent : Nat := bits / 2 ^ 52 % 2 ^ 11

def fraction : Nat := bits % 2 ^ 52

def value : FloatValue :=
  if exponent bits = 0x7FF then
    if fraction bits = 0 then .infinity (negative bits) else .nan
  else if exponent bits = 0 then .finite (negative bits) (scaled (fraction bits) (-1074))
  else .finite (negative bits) (scaled (2 ^ 52 + fraction bits) (exponent bits - 1075))

/-- The magnitude of a finite double, as a multiple of the smallest one. -/
def units : Nat :=
  if exponent bits = 0 then fraction bits else (2 ^ 52 + fraction bits) * 2 ^ (exponent bits - 1)

variable {bits}

theorem value_of_finite (h : exponent bits ≠ 0x7FF) :
    value bits = .finite (negative bits) (scaled (units bits) (-1074)) := by
  unfold value units
  rw [if_neg h]
  by_cases hzero : exponent bits = 0
  · rw [if_pos hzero, if_pos hzero]
  · rw [if_neg hzero, if_neg hzero, scaled_shift]
    have he : (-1074 + ((exponent bits - 1 : Nat) : Int)) = exponent bits - 1075 := by omega
    rw [he]

theorem eq_fields (h : bits < 2 ^ 63) : bits = exponent bits * 2 ^ 52 + fraction bits := by
  unfold exponent fraction
  omega

/-- The bits of a number of units, if a finite double has them. -/
def encode (u : Nat) : Option Nat :=
  if u < 2 ^ 52 then some u
  else if u.log2 < 2098 then some ((u.log2 - 51) * 2 ^ 52 + (u / 2 ^ (u.log2 - 52) - 2 ^ 52))
  else none

theorem encode_units (hbits : bits < 2 ^ 63) (hfinite : exponent bits ≠ 0x7FF) :
    encode (units bits) = some bits := by
  have hfields := eq_fields hbits
  have hfraction : fraction bits < 2 ^ 52 := Nat.mod_lt _ (by decide)
  have hexponent : exponent bits < 2 ^ 11 := Nat.mod_lt _ (by decide)
  unfold units encode
  by_cases hzero : exponent bits = 0
  · rw [if_pos hzero, if_pos hfraction]
    congr 1
    omega
  · rw [if_neg hzero]
    have hpow : 0 < 2 ^ (exponent bits - 1) := Nat.two_pow_pos _
    have hlog : ((2 ^ 52 + fraction bits) * 2 ^ (exponent bits - 1)).log2 = 52 + (exponent bits - 1) := by
      rw [Nat.log2_eq_iff (by positivity), Nat.pow_add, show 52 + (exponent bits - 1) + 1 =
        53 + (exponent bits - 1) by omega, Nat.pow_add]
      exact ⟨Nat.mul_le_mul_right _ (by omega), Nat.mul_lt_mul_of_pos_right (by omega) hpow⟩
    have hlarge : 2 ^ 52 ≤ (2 ^ 52 + fraction bits) * 2 ^ (exponent bits - 1) :=
      (Nat.le_add_right _ _).trans (Nat.le_mul_of_pos_right _ hpow)
    rw [if_neg (by omega), hlog, if_pos (by omega), Nat.add_sub_cancel_left, Nat.mul_div_cancel _ hpow,
      Nat.add_sub_cancel_left]
    congr 1
    have hsucc : 52 + (exponent bits - 1) - 51 = exponent bits := by omega
    rw [hsucc]
    omega

end Binary64

/-! The extended format of 80 bits: a mantissa, and a word with the sign and the exponent. -/

namespace Extended

def negative (signExponent : Nat) : Bool := signExponent / 2 ^ 15 % 2 = 1

def exponent (signExponent : Nat) : Nat := signExponent % 2 ^ 15

def value (mantissa signExponent : Nat) : FloatValue :=
  if exponent signExponent = 0x7FFF then
    if mantissa % 2 ^ 63 = 0 then .infinity (negative signExponent) else .nan
  else if exponent signExponent = 0 then .finite (negative signExponent) (scaled mantissa (-16445))
  else .finite (negative signExponent) (scaled mantissa (exponent signExponent - 16446))

/-- The top bit of the mantissa is set, unless the value is zero. -/
structure Normalised (mantissa signExponent : Nat) : Prop where
  mantissa_lt : mantissa < 2 ^ 64
  signExponent_lt : signExponent < 2 ^ 16
  top : mantissa.testBit 63 = true ∨ mantissa = 0 ∧ exponent signExponent = 0

end Extended
