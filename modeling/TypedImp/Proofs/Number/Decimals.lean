import Mathlib.Algebra.Order.Field.Power
import Mathlib.Data.Rat.Cast.Order
import Mathlib.Tactic.FieldSimp
import Mathlib.Tactic.Ring
import TypedImp.Number.Binary32

/-!
# The number that a decimal is

The same number has many decimals.  Its canonical one has no trailing zeros, and there is only one
such: whoever looks at canonical decimals alone looks at numbers.  So rounding a decimal depends
only on its value, in whatever way it is written.

* `Decimal.value`: the number that a decimal is.
* `Decimal.value_canonical`, `Decimal.canonical_eq_of_value_eq`: one canonical decimal per number.
* `Decimal.nearestBits_eq_of_value_eq`: rounding by value.
* `Decimal.zpow_magnitude_le`, `Decimal.value_lt_zpow_magnitude`: the powers of ten on both sides of
  a number.
-/

namespace TypedImp

namespace Decimal

variable {d d' : Decimal}

/-- The number that a decimal is. -/
def value (d : Decimal) : ℚ := d.coefficient * 10 ^ d.exponent

theorem value_eq_zero_iff : d.value = 0 ↔ d.coefficient = 0 := by
  have hpow : (10 : ℚ) ^ d.exponent ≠ 0 := zpow_ne_zero _ (by norm_num)
  simp [value, hpow]

/-! ## Canonical decimals -/

theorem value_stripZeros (fuel : Nat) (d : Decimal) : (stripZeros fuel d).value = d.value := by
  induction fuel generalizing d with
  | zero => rfl
  | succ fuel ih =>
    rw [stripZeros]
    split
    · next hzero =>
      obtain ⟨c, hc⟩ := Nat.dvd_of_mod_eq_zero hzero
      rw [ih, value, value, hc, Nat.mul_div_cancel_left c (by decide),
        zpow_add_one₀ (by norm_num : (10 : ℚ) ≠ 0)]
      push_cast
      ring
    · rfl

/-- The logarithm of a number is enough to strip all of its trailing zeros. -/
theorem coefficient_stripZeros_mod {fuel : Nat} (hd : d.coefficient ≠ 0)
    (hfuel : d.coefficient.log2 ≤ fuel) : (stripZeros fuel d).coefficient % 10 ≠ 0 := by
  induction fuel generalizing d with
  | zero =>
    have hlt := (Nat.log2_lt hd).mp (Nat.lt_succ_of_le hfuel)
    rw [stripZeros]
    omega
  | succ fuel ih =>
    rw [stripZeros]
    split
    · next hzero =>
      have hlt := (Nat.log2_lt hd).mp (Nat.lt_succ_of_le hfuel)
      rw [Nat.pow_succ] at hlt
      have hne : d.coefficient / 10 ≠ 0 := by omega
      exact ih hne (Nat.le_of_lt_succ ((Nat.log2_lt hne).mpr (by omega)))
    · next hne => exact hne

theorem value_canonical (d : Decimal) : d.canonical.value = d.value := by
  rw [canonical]
  split
  · next hzero => rw [value, value, hzero]; simp
  · exact value_stripZeros _ _

theorem coefficient_canonical_mod (h : d.coefficient ≠ 0) : d.canonical.coefficient % 10 ≠ 0 := by
  rw [canonical, if_neg h]
  exact coefficient_stripZeros_mod h le_rfl

/-- Without trailing zeros a number is written in one way only. -/
theorem eq_of_value_eq (hd : d.coefficient % 10 ≠ 0) (hd' : d'.coefficient % 10 ≠ 0)
    (h : d.value = d'.value) : d = d' := by
  wlog hle : d.exponent ≤ d'.exponent generalizing d d'
  · exact (this hd' hd h.symm (by omega)).symm
  obtain ⟨k, hk⟩ := Int.le.dest hle
  obtain ⟨c, x⟩ := d
  obtain ⟨c', x'⟩ := d'
  obtain rfl : x + k = x' := hk
  have hpow : (10 : ℚ) ^ x ≠ 0 := zpow_ne_zero _ (by norm_num)
  have hcast : (c : ℚ) * 10 ^ x = (c' * 10 ^ k : Nat) * 10 ^ x := by
    rw [value, value, zpow_add₀ (by norm_num), zpow_natCast] at h
    rw [h]
    push_cast
    ring
  have hc : c = c' * 10 ^ k := by exact_mod_cast mul_right_cancel₀ hpow hcast
  cases k with
  | zero => simp [hc]
  | succ k =>
    refine absurd ?_ hd
    change c % 10 = 0
    rw [hc, pow_succ, ← mul_assoc]
    exact Nat.mul_mod_left _ _

/-- **There is one canonical decimal for each number.** -/
theorem canonical_eq_of_value_eq (h : d.value = d'.value) : d.canonical = d'.canonical := by
  have hzero : d.coefficient = 0 ↔ d'.coefficient = 0 := by
    rw [← value_eq_zero_iff, ← value_eq_zero_iff, h]
  by_cases hd : d.coefficient = 0
  · rw [canonical, canonical, if_pos hd, if_pos (hzero.mp hd)]
  · exact eq_of_value_eq (coefficient_canonical_mod hd)
      (coefficient_canonical_mod (mt hzero.mpr hd))
      (by rw [value_canonical, value_canonical, h])

/-- **Rounding a decimal depends on its value alone.** -/
theorem nearestBits_eq_of_value_eq (h : d.value = d'.value) : d.nearestBits = d'.nearestBits := by
  rw [nearestBits, nearestBits, canonical_eq_of_value_eq h]

/-! ## Magnitudes -/

theorem length_digits_pos (d : Decimal) : 0 < d.digits.length := Nat.length_toDigits_pos

theorem pow_length_digits_le (h : d.coefficient ≠ 0) :
    10 ^ (d.digits.length - 1) ≤ d.coefficient := by
  by_contra hlt
  have hpos := d.length_digits_pos
  by_cases hone : d.digits.length = 1
  · rw [hone] at hlt
    omega
  · have hshort := (Nat.length_toDigits_le_iff (by decide) (by omega)).mpr (Nat.lt_of_not_le hlt)
    change d.digits.length ≤ _ at hshort
    omega

theorem lt_pow_length_digits (d : Decimal) : d.coefficient < 10 ^ d.digits.length :=
  (Nat.length_toDigits_le_iff (by decide) d.length_digits_pos).mp le_rfl

/-- A number is at least the power of ten of its leading digit. -/
theorem zpow_magnitude_le (h : d.coefficient ≠ 0) : (10 : ℚ) ^ d.magnitude ≤ d.value := by
  have hpos := d.length_digits_pos
  have hmagnitude : d.magnitude = ((d.digits.length - 1 : Nat) : Int) + d.exponent := by
    rw [magnitude]
    omega
  rw [hmagnitude, zpow_add₀ (by norm_num), zpow_natCast, value]
  have hle : ((10 ^ (d.digits.length - 1) : Nat) : ℚ) ≤ d.coefficient := by
    exact_mod_cast pow_length_digits_le h
  push_cast at hle
  exact mul_le_mul_of_nonneg_right hle (zpow_nonneg (by norm_num) _)

/-- A number is below the next power of ten. -/
theorem value_lt_zpow_magnitude (d : Decimal) : d.value < (10 : ℚ) ^ (d.magnitude + 1) := by
  have hmagnitude : d.magnitude + 1 = (d.digits.length : Int) + d.exponent := by
    rw [magnitude]
    omega
  rw [hmagnitude, zpow_add₀ (by norm_num), zpow_natCast, value]
  have hlt : (d.coefficient : ℚ) < (10 ^ d.digits.length : Nat) := by
    exact_mod_cast d.lt_pow_length_digits
  push_cast at hlt
  exact mul_lt_mul_of_pos_right hlt (zpow_pos (by norm_num) _)

end Decimal

end TypedImp
