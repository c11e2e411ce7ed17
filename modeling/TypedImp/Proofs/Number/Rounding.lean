import Mathlib.Tactic.NormNum.Ineq
import TypedImp.Number.Shortest
import TypedImp.Proofs.Number.Bits
import TypedImp.Proofs.Number.Decimals

/-!
# Rounding what needs no rounding

A decimal that is a floating-point number is rounded to that number.  Rounding chooses the least
scale at which the value has a significand, and for a number in its normal form this is the scale it
has.  The division by the unit of that scale then leaves no remainder.

* `Binary32.IsNormal`: significands and scales of positive finite numbers.
* `Binary32.leastScale_eq`: the scale that is chosen.
* `Binary32.nearestBits_of_eq`: fractions that are floating-point numbers.
* `Decimal.nearestBits_of_value`: **decimals that are floating-point numbers**.
* `Binary32.nearestBits_shortest`: what is printed for a number is rounded to it.
-/

namespace TypedImp

namespace Binary32

/-- The significand of a positive finite number at its scale: only the least scale has significands
without a leading digit. -/
structure IsNormal (significand scale : Nat) : Prop where
  pos : 0 < significand
  lt : significand < 2 * leadingBit
  leading : scale = 0 ∨ leadingBit ≤ significand
  finite : scale * leadingBit + significand < infinityBits

/-- The scale is the least one at which the value is below the greatest significand. -/
theorem leastScale_eq {n d scale : Nat} (hd : 0 < d) (hlt : n < d * 2 ^ (scale + 24))
    (hge : scale = 0 ∨ d * 2 ^ (scale + 23) ≤ n) : leastScale n d = scale := by
  have hlog : d < 2 ^ (d.log2 + 1) := Nat.lt_log2_self
  have hlog' : 2 ^ d.log2 ≤ d := Nat.log2_self_le hd.ne'
  have hn : n ≠ 0 → n.log2 < d.log2 + 1 + (scale + 24) := by
    intro hn
    rw [Nat.log2_lt hn, pow_add]
    exact hlt.trans_le (Nat.mul_le_mul_right _ hlog.le)
  have hupper : n.log2 - d.log2 - 24 ≤ scale := by
    by_cases hzero : n = 0
    · rw [hzero, Nat.log2_zero]
      omega
    · have := hn hzero
      omega
  have hlower : scale ≤ n.log2 - d.log2 - 24 + 1 := by
    rcases hge with hzero | hge
    · omega
    · have hle : 2 ^ (d.log2 + (scale + 23)) ≤ n := by
        rw [pow_add]
        exact (Nat.mul_le_mul_right _ hlog').trans hge
      have hne : n ≠ 0 := by
        have := Nat.two_pow_pos (d.log2 + (scale + 23))
        omega
      have := (Nat.le_log2 hne).mpr hle
      omega
  simp only [leastScale, Nat.pow_eq]
  generalize n.log2 - d.log2 - 24 = guess at hupper hlower ⊢
  rcases Nat.lt_or_eq_of_le hupper with hbelow | rfl
  · obtain rfl : scale = guess + 1 := by omega
    have hge' : d * 2 ^ (guess + 24) ≤ n := by
      rcases hge with hzero | hge
      · omega
      · exact hge
    rw [if_neg (Nat.not_lt.mpr hge')]
  · rw [if_pos hlt]

theorem divideToEven_mul {m d : Nat} (hd : 0 < d) : divideToEven (m * d) d = m := by
  have hquotient : m * d / d = m := Nat.mul_div_cancel m hd
  have hremainder : m * d % d = 0 := Nat.mul_mod_left m d
  simp only [divideToEven, hquotient, hremainder, Nat.mul_zero, if_pos hd]

/-- **A fraction that is a floating-point number is rounded to it.** -/
theorem nearestBits_of_eq {n d significand scale : Nat} (hnormal : IsNormal significand scale)
    (hd : 0 < d) (h : n * Nat.pow 2 149 = significand * (d * Nat.pow 2 scale)) :
    nearestBits n d = scale * leadingBit + significand := by
  have hunit : 0 < d * Nat.pow 2 scale := Nat.mul_pos hd (Nat.two_pow_pos scale)
  have hscale : leastScale (n * Nat.pow 2 149) d = scale := by
    rw [h]
    have hlt := hnormal.lt
    have hleading := hnormal.leading
    rw [leadingBit] at hlt hleading
    have hupper : d * 2 ^ (scale + 24) = 2 * 8388608 * (d * Nat.pow 2 scale) := by
      rw [Nat.pow_eq, pow_add]
      ring
    have hlower : d * 2 ^ (scale + 23) = 8388608 * (d * Nat.pow 2 scale) := by
      rw [Nat.pow_eq, pow_add]
      ring
    refine leastScale_eq hd ?_ (hleading.imp_right fun hle => ?_)
    · rw [hupper]
      exact Nat.mul_lt_mul_of_pos_right hlt hunit
    · rw [hlower]
      exact Nat.mul_le_mul_right _ hle
  simp only [nearestBits, hscale]
  rw [h, divideToEven_mul hunit]
  exact Nat.min_eq_left hnormal.finite.le

end Binary32

namespace Decimal

open Binary32

variable {d : Decimal} {significand scale : Nat}

/-- The number that a significand is at a scale. -/
def ofParts (significand scale : Nat) : ℚ := significand * 2 ^ ((scale : Int) - 149)

theorem ofParts_mul (significand scale : Nat) :
    ofParts significand scale * 2 ^ 149 = significand * 2 ^ scale := by
  rw [ofParts, zpow_sub₀ (by norm_num), zpow_natCast, mul_assoc]
  congr 1
  exact div_mul_cancel₀ _ (by norm_num)

theorem ofParts_lt (h : IsNormal significand scale) :
    ofParts significand scale < (10 : ℚ) ^ (40 : Int) := by
  have hlt := h.lt
  have hfinite := h.finite
  rw [leadingBit] at hlt hfinite
  rw [infinityBits] at hfinite
  have hscale : (2 : ℚ) ^ scale ≤ 2 ^ 254 :=
    pow_le_pow_right₀ (by norm_num) (by omega)
  have hsignificand : (significand : ℚ) < 2 ^ 24 := by
    have : (significand : ℚ) < (16777216 : Nat) := by exact_mod_cast hlt
    norm_num at this ⊢
    exact this
  refine lt_of_mul_lt_mul_right ?_ (by norm_num : (0 : ℚ) ≤ 2 ^ 149)
  calc ofParts significand scale * 2 ^ 149
      = significand * 2 ^ scale := ofParts_mul significand scale
    _ ≤ significand * 2 ^ 254 := mul_le_mul_of_nonneg_left hscale (Nat.cast_nonneg _)
    _ < 2 ^ 24 * 2 ^ 254 := mul_lt_mul_of_pos_right hsignificand (by norm_num)
    _ < (10 : ℚ) ^ (40 : Int) * 2 ^ 149 := by norm_num

theorem lt_ofParts (h : IsNormal significand scale) :
    (10 : ℚ) ^ (-50 : Int) < ofParts significand scale := by
  have hsignificand : (1 : ℚ) ≤ significand := by exact_mod_cast h.pos
  refine lt_of_mul_lt_mul_right ?_ (by norm_num : (0 : ℚ) ≤ 2 ^ 149)
  calc (10 : ℚ) ^ (-50 : Int) * 2 ^ 149
      < 1 := by norm_num
    _ ≤ significand * 2 ^ scale := one_le_mul_of_one_le_of_one_le hsignificand
        (one_le_pow₀ (by norm_num))
    _ = ofParts significand scale * 2 ^ 149 := (ofParts_mul significand scale).symm

/-- **A decimal that is a floating-point number is rounded to it.** -/
theorem nearestBits_of_value (hnormal : IsNormal significand scale)
    (h : d.value = ofParts significand scale) :
    d.nearestBits = scale * leadingBit + significand := by
  have hvalue : d.canonical.value = ofParts significand scale := d.value_canonical.trans h
  have hpos : 0 < ofParts significand scale :=
    (zpow_pos (by norm_num) _).trans (lt_ofParts hnormal)
  rw [nearestBits]
  generalize d.canonical = c at hvalue
  have hzero : c.coefficient ≠ 0 := fun h => hpos.ne' (hvalue.symm.trans (value_eq_zero_iff.mpr h))
  have hlarge : ¬ 40 < c.magnitude := by
    have hlt := (c.zpow_magnitude_le hzero).trans_lt (hvalue.trans_lt (ofParts_lt hnormal))
    have := (zpow_lt_zpow_iff_right₀ (by norm_num)).mp hlt
    omega
  have hsmall : ¬ c.magnitude < -50 := by
    have hlt := (lt_ofParts hnormal).trans (hvalue.symm.trans_lt c.value_lt_zpow_magnitude)
    have := (zpow_lt_zpow_iff_right₀ (by norm_num)).mp hlt
    omega
  simp only [if_neg hzero, if_neg hlarge, if_neg hsmall]
  have hscaled := ofParts_mul significand scale
  rw [← hvalue, value] at hscaled
  split
  · next hexponent =>
    obtain ⟨k, hk⟩ := Int.eq_ofNat_of_zero_le hexponent
    rw [hk, zpow_natCast] at hscaled
    refine nearestBits_of_eq hnormal Nat.one_pos ?_
    rw [hk, Int.toNat_natCast, Nat.one_mul]
    simp only [Nat.pow_eq]
    exact_mod_cast hscaled
  · next hexponent =>
    obtain ⟨k, hk⟩ : ∃ k : Nat, -c.exponent = k := ⟨(-c.exponent).toNat, by omega⟩
    have hk' : c.exponent = -(k : Int) := by omega
    rw [hk', zpow_neg, zpow_natCast] at hscaled
    refine nearestBits_of_eq hnormal (Nat.pow_pos (by decide)) ?_
    rw [hk, Int.toNat_natCast]
    rw [mul_right_comm, ← div_eq_mul_inv, div_eq_iff (pow_ne_zero k (by norm_num)), mul_assoc,
      mul_comm (2 ^ scale)] at hscaled
    simp only [Nat.pow_eq]
    exact_mod_cast hscaled

end Decimal

/-! ## What is printed -/

namespace Binary32

open Decimal

variable {significand scale : Nat}

theorem value_allDigits (significand scale : Nat) :
    (allDigits significand scale).value = ofParts significand scale := by
  rw [allDigits]
  split
  · next hscale =>
    obtain ⟨k, rfl⟩ := Nat.exists_eq_add_of_le hscale
    have hpower : ((149 + k : Nat) : Int) - 149 = k := by omega
    rw [value_canonical, Decimal.value, ofParts, Nat.add_sub_cancel_left, hpower, zpow_natCast]
    simp
  · next hscale =>
    obtain ⟨k, hk⟩ := Nat.exists_eq_add_of_lt (Nat.lt_of_not_le hscale)
    have hpower : (scale : Int) - 149 = -((k + 1 : Nat) : Int) := by omega
    have hplaces : 149 - scale = k + 1 := by omega
    rw [value_canonical, Decimal.value, ofParts, hplaces, hpower, zpow_neg, zpow_neg, zpow_natCast,
      zpow_natCast]
    simp only [Nat.pow_eq]
    push_cast
    rw [show (10 : ℚ) = 5 * 2 by norm_num, mul_pow]
    field_simp

/-- A candidate counts only if it is rounded to the bits in question. -/
theorem nearestBits_of_candidate? {f : Fraction} {bits : Nat} {exponent : Int} {d : Decimal}
    (h : candidate? f bits exponent = some d) : d.nearestBits = bits := by
  simp only [candidate?] at h
  split at h
  · next hlower hupper =>
    split at h <;> cases h
    · exact eq_of_beq hupper
    · exact eq_of_beq hlower
  · next hlower _ =>
    cases h
    exact eq_of_beq hlower
  · next _ hupper =>
    cases h
    exact eq_of_beq hupper
  · cases h

/-- **What is printed for a number is rounded to the number.** -/
theorem nearestBits_shortest (h : IsNormal significand scale) :
    (shortest significand scale).nearestBits = scale * leadingBit + significand := by
  simp only [shortest]
  cases hfound : (List.range 9).findSome? fun (i : Nat) =>
      candidate? (value significand scale) (scale * leadingBit + significand)
        (leadingPower (value significand scale) - i) with
  | some d =>
    obtain ⟨i, -, hcandidate⟩ := List.exists_of_findSome?_eq_some hfound
    exact nearestBits_of_candidate? hcandidate
  | none => exact nearestBits_of_value h (value_allDigits significand scale)

/-- A finite number has a significand and a scale, which make up its bits. -/
theorem classify_of_isFinite {v : Float32} (h : v.isFinite = true) :
    ∃ negative significand scale, classify v = .finite ⟨negative, significand, scale⟩ ∧
      (significand = 0 ∧ scale = 0 ∨ IsNormal significand scale) ∧
      v.toBits.toNat = (if negative then signBit else 0) + (scale * leadingBit + significand) := by
  have hfinite : v.toBits.toNat % signBit < infinityBits := isFinite_iff.mp h
  have hlt : v.toBits.toNat < 2 * signBit := v.toBits.toBitVec.isLt
  have hsign : v.toBits.toNat =
      (if decide (signBit ≤ v.toBits.toNat) then signBit else 0) + v.toBits.toNat % signBit := by
    rw [signBit] at hlt ⊢
    split
    · next hle =>
      have := of_decide_eq_true hle
      omega
    · next hle =>
      have := of_decide_eq_false (Bool.eq_false_iff.mpr hle)
      omega
  simp only [classify]
  generalize decide (signBit ≤ v.toBits.toNat) = negative at hsign ⊢
  generalize v.toBits.toNat % signBit = magnitude at hfinite hsign ⊢
  rw [if_neg hfinite.ne, if_neg (Nat.not_lt.mpr hfinite.le)]
  have hdivide := Nat.div_add_mod' magnitude leadingBit
  have hfraction : magnitude % leadingBit < leadingBit := Nat.mod_lt _ (by decide)
  split
  · next hexponent =>
    rw [hexponent] at hdivide
    refine ⟨negative, _, 0, rfl, ?_, by omega⟩
    rcases Nat.eq_zero_or_pos (magnitude % leadingBit) with hzero | hpos
    · exact .inl ⟨hzero, rfl⟩
    · exact .inr ⟨hpos, by omega, .inl rfl, by omega⟩
  · next hexponent =>
    obtain ⟨x, hx⟩ := Nat.exists_eq_add_one_of_ne_zero hexponent
    rw [hx, Nat.add_one_mul] at hdivide
    rw [hx, Nat.add_sub_cancel]
    exact ⟨negative, _, x, rfl, .inr ⟨by omega, by omega, .inr (Nat.le_add_right _ _), by omega⟩,
      by omega⟩

end Binary32

end TypedImp
