import TypedImp.Proofs.Number.Layout
import TypedImp.Proofs.Number.Rounding

/-!
# Printed values are read back

What is printed for an integer or a truth value is read as this integer or this truth value.  What
is printed for a finite floating-point number is read as this number if there is a point in it, and
is refused if there is none.

## Why some numbers are refused

A point is what tells a floating-point number from an integer when a value is read, and the
scientific layout of a single digit has none.  Such a text is no integer either, so it is never
taken for another value.

* `shownDecimal`, `showFloat32_eq`: the decimal that is printed for a number.
* `toFloat32_of_nearestBits`, `readFloat32?_of_printedAs`: reading the text of a decimal.
* `read?_showFloat32`: finite numbers.
* `printed_scalars_read_back`: **all values with one word of text**.
-/

namespace TypedImp

open Binary32 Decimal

/-- The decimal that is printed for a finite number, without its sign. -/
def shownDecimal (v : Float32) : Decimal :=
  match classify v with
  | .finite ⟨_, significand, scale⟩ =>
    if significand = 0 then ⟨0, 0⟩ else shortest significand scale
  | _ => ⟨0, 0⟩

/-- The printed decimal is rounded to the bits of the number, up to the sign. -/
theorem showFloat32_eq {v : Float32} (h : v.isFinite = true) : ∃ negative : Bool,
    showFloat32 v = String.ofList
      (if negative then '-' :: (shownDecimal v).layout else (shownDecimal v).layout) ∧
    (shownDecimal v).nearestBits < infinityBits ∧
    v.toBits.toNat = (if negative then signBit else 0) + (shownDecimal v).nearestBits := by
  obtain ⟨negative, significand, scale, hclass, hnormal, hbits⟩ := classify_of_isFinite h
  have hshown : shownDecimal v =
      if significand = 0 then ⟨0, 0⟩ else shortest significand scale := by
    rw [shownDecimal, hclass]
  refine ⟨negative, by rw [showFloat32, hclass, hshown], ?_⟩
  rcases hnormal with ⟨rfl, rfl⟩ | hnormal
  · have hzero : (⟨0, 0⟩ : Decimal).nearestBits = 0 := rfl
    rw [hshown, if_pos rfl, hzero]
    exact ⟨by decide, by rw [hbits]; rfl⟩
  · rw [hshown, if_neg hnormal.pos.ne', nearestBits_shortest hnormal]
    exact ⟨hnormal.finite, hbits⟩

/-- A decimal that is rounded to the bits of a number is read as it, up to the sign. -/
theorem toFloat32_of_nearestBits {v : Float32} {d : Decimal} {negative : Bool}
    (hfinite : d.nearestBits < infinityBits)
    (hbits : v.toBits.toNat = (if negative then signBit else 0) + d.nearestBits) :
    d.toFloat32.isFinite = true ∧ (if negative then -d.toFloat32 else d.toFloat32) = v := by
  rw [infinityBits] at hfinite
  have hnat : (UInt32.ofNat d.nearestBits).toNat = d.nearestBits :=
    UInt32.toNat_ofNat_of_lt' (Nat.lt_trans hfinite (by decide))
  have hpositive : IsFinite (UInt32.ofNat d.nearestBits).toBitVec := by
    change (UInt32.ofNat d.nearestBits).toNat % signBit < infinityBits
    rw [hnat, signBit, infinityBits]
    omega
  have htoBits : d.toFloat32.toBits = UInt32.ofNat d.nearestBits := toBits_ofBits hpositive
  have hfloat : d.toFloat32.isFinite = true := by rwa [isFinite_iff, htoBits]
  refine ⟨hfloat, Float32.toBits_inj.mp (UInt32.toNat_inj.mp ?_)⟩
  rw [hbits]
  cases negative with
  | false => rw [if_neg (by decide), if_neg (by decide), htoBits, hnat, Nat.zero_add]
  | true =>
    have hsign : d.toFloat32.toBits.toNat < signBit := by
      rw [htoBits, hnat, signBit]
      omega
    rw [if_pos rfl, if_pos rfl, toBits_neg hfloat hsign, htoBits, hnat, Nat.add_comm]

/-- **A text with a point is read as the number that a decimal of its value is rounded to.** -/
theorem readFloat32?_of_printedAs {d : Decimal} {cs : List Char} (h : PrintedAs d.value cs)
    (hfinite : d.toFloat32.isFinite = true) : readFloat32? cs = some d.toFloat32 := by
  obtain ⟨d', hread, hvalue⟩ := h.readUnsigned?
  obtain ⟨whole, more, rfl, hwhole⟩ := h.exists_whole
  have hsame : d'.toFloat32 = d.toFloat32 := by
    rw [toFloat32, toFloat32, nearestBits_eq_of_value_eq hvalue]
  simp only [readFloat32?, Decimal.read?, spanSign_of_append hwhole, hread, Option.map_some, hsame,
    if_pos hfinite, Bool.false_eq_true, if_false]

/-- **A finite number is read back if there is a point in its text, and refused otherwise.** -/
theorem read?_showFloat32 {v : Float32} (h : v.isFinite = true) :
    Value.read? (showFloat32 v) =
      if '.' ∈ (showFloat32 v).toList then some (.float32 v) else none := by
  obtain ⟨negative, hshow, hbits, hsigned⟩ := showFloat32_eq h
  obtain ⟨hfinite, hvalue⟩ := toFloat32_of_nearestBits hbits hsigned
  generalize shownDecimal v = d at hshow hfinite hvalue
  rw [hshow, String.toList_ofList]
  by_cases hpoint : d.IsPlain ∨ 2 ≤ d.digits.length
  · have hprinted := printedAs_layout hpoint
    have hread := readFloat32?_of_printedAs hprinted hfinite
    obtain ⟨whole, more, hsplit, hwhole⟩ := hprinted.exists_whole
    cases negative with
    | false =>
      have hmem : '.' ∈ d.layout := hprinted.mem_point
      simp only [Bool.false_eq_true, if_false] at hvalue ⊢
      rw [if_pos hmem, Value.read?_of_point hprinted.isNumeral hmem, hread, ← hvalue]
      rfl
    | true =>
      have hmem : '.' ∈ '-' :: d.layout := List.mem_cons_of_mem _ hprinted.mem_point
      simp only [if_true] at hvalue ⊢
      rw [if_pos hmem, Value.read?_of_point hprinted.isNumeral.minus hmem, hsplit,
        readFloat32?_minus hwhole, ← hsplit, hread, ← hvalue]
      rfl
  · obtain ⟨hplain, hlength⟩ := not_or.mp hpoint
    obtain ⟨c, power, hlayout, hc⟩ := layout_of_single hplain (by omega)
    have hnumeral : IsNumeral d.layout := by
      rw [hlayout]
      exact (isNumeral_of_isDigits (@isDigits_of_forall [c] (by simp) (by simpa))).append
        ['e'] (isNumeral_integerText power)
    have hexponent : 'e' ∈ d.layout := by simp [hlayout]
    have hmissing : '.' ∉ d.layout := mt mem_point_layout_iff.mp hpoint
    -- the letter of the exponent keeps it from being an integer
    have hrefused : ∀ {cs : List Char}, IsNumeral cs → 'e' ∈ cs → '.' ∉ cs →
        Value.read? (String.ofList cs) = if '.' ∈ cs then some (.float32 v) else none := by
      intro cs hcs hletter hnone
      rw [if_neg hnone, Value.read?_of_no_point hcs hnone,
        readInt32?_of_not_isDigit hletter (by decide) (by decide) (by decide)]
      rfl
    cases negative with
    | false => exact hrefused hnumeral hexponent hmissing
    | true =>
      exact hrefused hnumeral.minus (List.mem_cons_of_mem _ hexponent)
        (List.not_mem_cons_of_ne_of_not_mem (by decide) hmissing)

theorem mem_point_showFloat32_iff {v : Float32} (h : v.isFinite = true) :
    '.' ∈ (showFloat32 v).toList ↔
      (shownDecimal v).IsPlain ∨ 2 ≤ (shownDecimal v).digits.length := by
  obtain ⟨negative, hshow, -, -⟩ := showFloat32_eq h
  rw [hshow, String.toList_ofList, ← mem_point_layout_iff]
  cases negative <;> simp

/-- **Printed values are read back**, with their types: every integer, every truth value, and every
finite floating-point number that is printed with a point.  These are the numbers printed
positionally and those printed with two digits or more; the others are refused. -/
theorem printed_scalars_read_back :
    (∀ n : Int32, Value.read? (Value.int32 n).text = some (.int32 n)) ∧
    (∀ b : Bool, Value.read? (Value.bool b).text = some (.bool b)) ∧
    ∀ v : Float32, v.isFinite = true →
      Value.read? (Value.float32 v).text =
        (if '.' ∈ (Value.float32 v).text.toList then some (.float32 v) else none) ∧
      ('.' ∈ (Value.float32 v).text.toList ↔
        (shownDecimal v).IsPlain ∨ 2 ≤ (shownDecimal v).digits.length) := by
  refine ⟨fun n => ?_, fun b => ?_,
    fun v h => ⟨read?_showFloat32 h, mem_point_showFloat32_iff h⟩⟩
  · have hpoint : '.' ∉ integerText n.toInt := by
      intro hmem
      rcases isDigit_or_of_mem_integerText hmem with hdigit | heq
      · cases hdigit
      · cases heq
    rw [Value.text, Value.read?_of_no_point (isNumeral_integerText _) hpoint,
      readInt32?_integerText]
    rfl
  · cases b <;> decide +kernel

/-- The greatest finite number, which is printed with an exponent, is read back. -/
theorem greatest_read_back :
    (Float32.ofBits 0x7F7FFFFF).isFinite = true ∧
      (Value.float32 (Float32.ofBits 0x7F7FFFFF)).text = "3.4028235e38" ∧
      Value.read? "3.4028235e38" = some (.float32 (Float32.ofBits 0x7F7FFFFF)) := by
  have hfinite : (Float32.ofBits 0x7F7FFFFF).isFinite = true := by decide +kernel
  have htext : (Value.float32 (Float32.ofBits 0x7F7FFFFF)).text = "3.4028235e38" := by
    decide +kernel
  have hread := (printed_scalars_read_back.2.2 _ hfinite).1
  rw [htext] at hread
  exact ⟨hfinite, htext, hread.trans (if_pos (by decide))⟩

/-- Not every finite number is read back: ten quadrillions are printed without a point. -/
theorem tenQuadrillion_not_read_back :
    ¬ ∀ v : Float32, v.isFinite = true →
      Value.read? (Value.float32 v).text = some (.float32 v) := by
  intro h
  have hread := h (Float32.ofBits 0x5A0E1BCA) (by decide +kernel)
  have htext : (Value.float32 (Float32.ofBits 0x5A0E1BCA)).text = "1e16" := by decide +kernel
  have hrefused : Value.read? "1e16" = none := by decide +kernel
  rw [htext, hrefused] at hread
  cases hread

end TypedImp
