import Mathlib
import TypedImp.Number.Binary32

/-!
# The bits of a floating-point number

Thirty-two bits are a sign, eight bits of exponent and twenty-three bits of fraction.  Operations on
numbers take the bits apart, work on what they stand for and put bits together again.  For a finite
number nothing is lost on the way, so that all bits of finite numbers are in use, and a minus does
nothing but change the sign.

* `Binary32.toNat_packComponents`: bits that are put together.
* `Binary32.pack_unpack_of_exponent`, `Binary32.neg_unpack`: taking apart and putting together.
* `isFinite_iff`: finite numbers by their bits.
* `toBits_ofBits`: the number with given bits.
* `toBits_neg`: what a minus does.
-/

namespace TypedImp

open Float.Model Float.Model.UnpackedFloat

namespace Binary32

variable {b : BitVec 32}

/-! ## The three fields -/

theorem toNat_unpackExponent (b : BitVec 32) :
    (@unpackExponent .binary32 b).toNat = b.toNat / leadingBit % 256 := by
  change (b.extractLsb' 23 8).toNat = _
  rw [BitVec.extractLsb'_toNat, Nat.shiftRight_eq_div_pow]
  rfl

theorem toNat_unpackMantissa (b : BitVec 32) :
    (@unpackMantissa .binary32 b).toNat = b.toNat % leadingBit := by
  change (b.extractLsb' 0 23).toNat = _
  rw [BitVec.extractLsb'_toNat, Nat.shiftRight_zero]
  rfl

theorem toNat_unpackSign (b : BitVec 32) :
    (@unpackSign .binary32 b).toNat = b.toNat / signBit := by
  change (b.extractLsb' 31 1).toNat = _
  have hlt := b.isLt
  rw [BitVec.extractLsb'_toNat, Nat.shiftRight_eq_div_pow, signBit]
  omega

/-- Fields that are put together do not overlap. -/
theorem toNat_packComponents (s : Sign) (e : BitVec 8) (m : BitVec 23) :
    (packComponents .binary32 s e m).toNat =
      s.toBitVec.toNat * signBit + e.toNat * leadingBit + m.toNat := by
  change (s.toBitVec ++ e ++ m).toNat = _
  rw [BitVec.toNat_append, BitVec.toNat_append, ← Nat.shiftLeft_add_eq_or_of_lt m.isLt,
    ← Nat.shiftLeft_add_eq_or_of_lt e.isLt, Nat.shiftLeft_eq, Nat.shiftLeft_eq, signBit, leadingBit]
  omega

/-! ## Taking apart and putting together -/

/-- Unless the exponent is the greatest one, bits are not lost when they are taken apart. -/
theorem pack_unpack_of_exponent (h : @unpackExponent .binary32 b ≠ -1#8) :
    UnpackedFloat.pack .binary32 (UnpackedFloat.unpack .binary32 b) = b := by
  have hnumber : ¬ (@isNaNBits .binary32 b = true) := by
    rw [isNaNBits, decide_eq_true_eq]
    exact fun hnan => h hnan.1
  exact (@pack_unpack .binary32 b (by decide)).trans (if_neg hnumber)

/-- A minus changes the sign and nothing else. -/
theorem neg_unpack (s : Sign) (e : BitVec 8) (m : BitVec 23) :
    (UnpackedFloat.unpack .binary32 (packComponents .binary32 s e m)).neg =
      UnpackedFloat.unpack .binary32 (packComponents .binary32 (-s) e m) := by
  simp only [UnpackedFloat.unpack, unpackMantissa_packComponents, unpackExponent_packComponents,
    unpackSign_packComponents, Sign.ofBitVec_toBitVec]
  split
  · split <;> rfl
  · split
    · split <;> rfl
    · rfl

/-- Bits of a finite number. -/
def IsFinite (b : BitVec 32) : Prop := b.toNat % signBit < infinityBits

theorem isFinite_iff_exponent : IsFinite b ↔ @unpackExponent .binary32 b ≠ -1#8 := by
  have hne : @unpackExponent .binary32 b ≠ -1#8 ↔
      (@unpackExponent .binary32 b).toNat ≠ 255 := by
    rw [ne_eq, ← BitVec.toNat_inj]
    rfl
  rw [hne, toNat_unpackExponent, IsFinite, signBit, infinityBits, leadingBit]
  omega

end Binary32

/-! ## Floating-point numbers -/

open Binary32

theorem isFinite_iff {v : Float32} : v.isFinite = true ↔ IsFinite v.toBits.toBitVec := by
  rw [isFinite_iff_exponent]
  change (UnpackedFloat.unpack .binary32 v.toBits.toBitVec).isFinite = true ↔ _
  simp only [UnpackedFloat.unpack]
  split
  · next he =>
    split <;> exact ⟨fun h => absurd h Bool.false_ne_true, fun h => absurd he h⟩
  · next he =>
    split
    · split <;> exact ⟨fun _ => he, fun _ => rfl⟩
    · exact ⟨fun _ => he, fun _ => rfl⟩

theorem toBits_ofBits {b : UInt32} (h : IsFinite b.toBitVec) : (Float32.ofBits b).toBits = b :=
  UInt32.toBitVec_inj.mp (pack_unpack_of_exponent (isFinite_iff_exponent.mp h))

/-- **A minus changes the sign.** -/
theorem toBits_neg {v : Float32} (h : v.isFinite = true) (hpositive : v.toBits.toNat < signBit) :
    (-v).toBits.toNat = v.toBits.toNat + signBit := by
  have hexponent := isFinite_iff_exponent.mp (isFinite_iff.mp h)
  have hlt := v.toBits.toBitVec.isLt
  have hsign : @unpackSign .binary32 v.toBits.toBitVec = 0#1 := by
    refine BitVec.eq_of_toNat_eq ((toNat_unpackSign _).trans ?_)
    exact Nat.div_eq_of_lt hpositive
  have hbits : (-v).toBits.toBitVec = packComponents .binary32 .negative
      (@unpackExponent .binary32 v.toBits.toBitVec)
      (@unpackMantissa .binary32 v.toBits.toBitVec) := by
    change UnpackedFloat.pack .binary32 (UnpackedFloat.unpack .binary32 v.toBits.toBitVec).neg = _
    have hneg := neg_unpack (.ofBitVec (@unpackSign .binary32 v.toBits.toBitVec))
      (@unpackExponent .binary32 v.toBits.toBitVec)
      (@unpackMantissa .binary32 v.toBits.toBitVec)
    rw [packComponents_unpackSign_unpackExponent_unpackMantissa] at hneg
    rw [hneg, pack_unpack_of_exponent (by rwa [unpackExponent_packComponents]), hsign]
    rfl
  change (-v).toBits.toBitVec.toNat = _
  rw [hbits, toNat_packComponents, toNat_unpackExponent, toNat_unpackMantissa]
  change 1 * signBit + v.toBits.toNat / leadingBit % 256 * leadingBit +
    v.toBits.toNat % leadingBit = _
  rw [signBit] at hpositive ⊢
  rw [leadingBit]
  omega

end TypedImp
