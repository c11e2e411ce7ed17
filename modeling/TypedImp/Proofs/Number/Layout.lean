import TypedImp.Proofs.Number.Decimals
import TypedImp.Proofs.Number.Reading
import TypedImp.Number.Shortest

/-!
# Reading what is printed

A decimal is printed in one of two layouts.  With a point in it the text is read as a decimal with
the same value, though not always as the same decimal, since zeros may have been put behind the
digits.  Without a point there is only the scientific layout of a single digit.

* `readInt32?_integerText`: integers are read back.
* `Decimal.PrintedAs`: texts with a point in which reading finds a given value.
* `Decimal.printedAs_layout`, `Decimal.PrintedAs.readUnsigned?`: the layouts with a point, and
  reading them.
* `Decimal.IsPlain`, `Decimal.mem_point_layout_iff`: when there is a point.
-/

namespace TypedImp

/-! ## Digits -/

theorem digitsValue_eq (cs : List Char) : digitsValue cs = Nat.ofDigitChars 10 cs 0 :=
  Nat.ofDigitChars_eq_foldl.symm

theorem digitsValue_toDigits (n : Nat) : digitsValue (Nat.toDigits 10 n) = n := by
  rw [digitsValue_eq]
  exact Nat.ofDigitChars_ten_toDigits

theorem isDigits_toDigits (n : Nat) : isDigits (Nat.toDigits 10 n) = true := by
  simp only [isDigits, Bool.and_eq_true, Bool.not_eq_true', List.isEmpty_eq_false_iff,
    List.all_eq_true]
  exact ⟨Nat.toDigits_ne_nil, fun c hc => Nat.isDigit_of_mem_toDigits (by decide) le_rfl hc⟩

/-- Zeros behind the digits multiply the number by a power of ten. -/
theorem digitsValue_append_zeros (cs : List Char) (k : Nat) :
    digitsValue (cs ++ Decimal.zeros k) = 10 ^ k * digitsValue cs := by
  simp only [digitsValue_eq, Nat.ofDigitChars_append, Decimal.zeros,
    Nat.ofDigitChars_replicate_zero]

/-- Zeros in front of the digits change nothing. -/
theorem digitsValue_zeros_append (cs : List Char) (k : Nat) :
    digitsValue (Decimal.zeros k ++ cs) = digitsValue cs := by
  simp only [digitsValue_eq, Nat.ofDigitChars_append, Decimal.zeros,
    Nat.ofDigitChars_replicate_zero, Nat.mul_zero]

theorem isDigit_of_mem_zeros {k : Nat} {c : Char} (h : c ∈ Decimal.zeros k) : c.isDigit = true := by
  rw [List.eq_of_mem_replicate h]
  decide

/-! ## Integers -/

theorem integerText_of_nonneg {n : Int} (h : 0 ≤ n) :
    Decimal.integerText n = Nat.toDigits 10 n.toNat := if_neg (by omega)

theorem integerText_of_neg {n : Int} (h : n < 0) :
    Decimal.integerText n = '-' :: Nat.toDigits 10 (-n).toNat := if_pos h

theorem readExponent?_integerText (n : Int) :
    Decimal.readExponent? ('e' :: Decimal.integerText n) = some n := by
  have hdigits : ∀ k, ¬ ((Nat.toDigits 10 k).isEmpty ∨ !(Nat.toDigits 10 k).all Char.isDigit) := by
    intro k
    have h := isDigits_toDigits k
    rw [isDigits, Bool.and_eq_true] at h
    simp [h.2]
  rw [Decimal.readExponent?, if_pos (.inl rfl)]
  rcases lt_or_ge n 0 with hneg | hnonneg
  · have hsign : ∀ cs, Decimal.spanSign ('-' :: cs) = (true, cs) := fun _ => rfl
    simp only [integerText_of_neg hneg, hsign, if_neg (hdigits _), digitsValue_toDigits, if_true]
    congr 1
    omega
  · simp only [integerText_of_nonneg hnonneg, spanSign_of_isDigits (isDigits_toDigits _),
      if_neg (hdigits _), digitsValue_toDigits, Bool.false_eq_true, if_false]
    congr 1
    omega

/-- **A printed integer is read back.** -/
theorem readInt32?_integerText (n : Int32) : readInt32? (Decimal.integerText n.toInt) = some n := by
  have hmax := n.toInt_lt
  have hmin := n.le_toInt
  rcases lt_or_ge n.toInt 0 with hneg | hnonneg
  · rw [integerText_of_neg hneg, readInt32?_minus_eq_some_iff (isDigits_toDigits _),
      digitsValue_toDigits]
    omega
  · rw [integerText_of_nonneg hnonneg, readInt32?_eq_some_iff (isDigits_toDigits _),
      digitsValue_toDigits]
    omega

theorem isNumeral_integerText (n : Int) : IsNumeral (Decimal.integerText n) := by
  rcases lt_or_ge n 0 with hneg | hnonneg
  · rw [integerText_of_neg hneg]
    exact (isNumeral_of_isDigits (isDigits_toDigits _)).minus
  · rw [integerText_of_nonneg hnonneg]
    exact isNumeral_of_isDigits (isDigits_toDigits _)

/-- The text of an integer has digits and perhaps a minus in front of them. -/
theorem isDigit_or_of_mem_integerText {n : Int} {c : Char} (h : c ∈ Decimal.integerText n) :
    c.isDigit = true ∨ c = '-' := by
  rcases lt_or_ge n 0 with hneg | hnonneg
  · rw [integerText_of_neg hneg] at h
    rcases List.mem_cons.mp h with rfl | h
    · exact .inr rfl
    · exact .inl (isDigit_of_mem (isDigits_toDigits _) c h)
  · rw [integerText_of_nonneg hnonneg] at h
    exact .inl (isDigit_of_mem (isDigits_toDigits _) c h)

namespace Decimal

variable {d : Decimal}

theorem isDigits_digits (d : Decimal) : isDigits d.digits = true := isDigits_toDigits _

/-- The positional layout is used. -/
def IsPlain (d : Decimal) : Prop := -4 ≤ d.magnitude ∧ d.magnitude < 16

/-- Texts with a point in which reading finds the digits of a number of the value `q`. -/
inductive PrintedAs (q : ℚ) : List Char → Prop
  | plain {whole fraction : List Char} (integral : isDigits whole = true)
    (fractional : isDigits fraction = true)
    (denotes : value ⟨digitsValue (whole ++ fraction), -(fraction.length : Int)⟩ = q) :
    PrintedAs q (whole ++ '.' :: fraction)
  | scaled {whole fraction : List Char} {power : Int} (integral : isDigits whole = true)
    (fractional : isDigits fraction = true)
    (denotes : value ⟨digitsValue (whole ++ fraction), power - fraction.length⟩ = q) :
    PrintedAs q (whole ++ '.' :: (fraction ++ 'e' :: integerText power))

theorem digitsValue_digits (d : Decimal) : digitsValue d.digits = d.coefficient :=
  digitsValue_toDigits _

theorem isDigits_of_forall {cs : List Char} (hne : cs ≠ []) (h : ∀ c ∈ cs, c.isDigit = true) :
    isDigits cs = true := by
  simp only [isDigits, Bool.and_eq_true, Bool.not_eq_true', List.isEmpty_eq_false_iff,
    List.all_eq_true]
  exact ⟨hne, h⟩

theorem printedAs_positional (d : Decimal) :
    PrintedAs d.value (positional d.digits d.exponent) := by
  have hpos := d.length_digits_pos
  have hdigits := isDigit_of_mem d.isDigits_digits
  have hne : d.digits ≠ [] := List.length_pos_iff.mp hpos
  simp only [positional]
  split
  · next hpoint =>
    -- zeros between the point and the digits
    obtain ⟨k, hk⟩ : ∃ k : Nat, -((d.digits.length : Int) + d.exponent) = k :=
      ⟨(-((d.digits.length : Int) + d.exponent)).toNat, by omega⟩
    rw [hk, Int.toNat_natCast]
    refine @PrintedAs.plain _ ['0'] (zeros k ++ d.digits) rfl
      (isDigits_of_forall (by simp [hne]) ?_) ?_
    · intro c hc
      exact (List.mem_append.mp hc).elim isDigit_of_mem_zeros (hdigits c)
    · have hvalue : digitsValue (['0'] ++ (zeros k ++ d.digits)) = d.coefficient :=
        (digitsValue_zeros_append d.digits (k + 1)).trans d.digitsValue_digits
      have hexponent : -((zeros k ++ d.digits).length : Int) = d.exponent := by
        simp only [List.length_append, zeros, List.length_replicate]
        omega
      rw [hvalue, hexponent]
  · next hpoint =>
    split
    · next hexponent =>
      -- zeros between the digits and the point, and one behind it
      obtain ⟨k, hk⟩ := Int.eq_ofNat_of_zero_le hexponent
      rw [hk, Int.toNat_natCast]
      refine @PrintedAs.plain _ (d.digits ++ zeros k) ['0']
        (isDigits_of_forall (by simp [hne]) ?_) rfl ?_
      · intro c hc
        exact (List.mem_append.mp hc).elim (hdigits c) isDigit_of_mem_zeros
      · have hzeros : zeros k ++ ['0'] = zeros (k + 1) := List.replicate_succ'.symm
        rw [List.append_assoc, hzeros, digitsValue_append_zeros, d.digitsValue_digits, value, value,
          hk]
        simp only [List.length_singleton, zpow_natCast]
        push_cast
        rw [pow_succ, zpow_neg_one]
        field_simp
    · next hexponent =>
      -- the point among the digits
      obtain ⟨k, hk⟩ : ∃ k : Nat, (d.digits.length : Int) + d.exponent = k :=
        ⟨((d.digits.length : Int) + d.exponent).toNat, by omega⟩
      rw [hk, Int.toNat_natCast, List.append_assoc]
      refine @PrintedAs.plain _ (d.digits.take k) (d.digits.drop k)
        (isDigits_of_forall ?_ fun c hc => hdigits c (List.mem_of_mem_take hc))
        (isDigits_of_forall ?_ fun c hc => hdigits c (List.mem_of_mem_drop hc)) ?_
      · rw [ne_eq, List.take_eq_nil_iff]
        rintro (hzero | hnil)
        · omega
        · exact hne hnil
      · rw [ne_eq, List.drop_eq_nil_iff]
        omega
      · rw [List.take_append_drop, d.digitsValue_digits, List.length_drop]
        have hplaces : -((d.digits.length - k : Nat) : Int) = d.exponent := by omega
        rw [hplaces]

theorem printedAs_scientific (d : Decimal) (h : 2 ≤ d.digits.length) :
    PrintedAs d.value (scientific d.digits d.exponent) := by
  have hdigits := isDigit_of_mem d.isDigits_digits
  have hvalue := d.digitsValue_digits
  generalize d.digits = digits at h hdigits hvalue
  match digits, h with
  | c :: e :: es, _ =>
    have hlayout : scientific (c :: e :: es) d.exponent = [c] ++ '.' :: ((e :: es) ++
        'e' :: integerText ((c :: e :: es).length - 1 + d.exponent)) := by
      simp [scientific]
    rw [hlayout]
    refine .scaled (isDigits_of_forall (by simp) fun a ha => ?_)
      (isDigits_of_forall (by simp) fun a ha => hdigits a (List.mem_cons_of_mem c ha)) ?_
    · exact hdigits a (List.mem_singleton.mp ha ▸ List.mem_cons_self)
    · have hexponent : ((c :: e :: es).length : Int) - 1 + d.exponent - ((e :: es).length : Int) =
          d.exponent := by
        simp only [List.length_cons]
        omega
      rw [List.singleton_append, hvalue, hexponent]

/-- **A layout with a point shows the value.** -/
theorem printedAs_layout (h : d.IsPlain ∨ 2 ≤ d.digits.length) : PrintedAs d.value d.layout := by
  rw [layout]
  split
  · exact printedAs_positional d
  · next hplain => exact printedAs_scientific d (h.resolve_left hplain)

namespace PrintedAs

variable {q : ℚ} {cs : List Char}

theorem mem_point (h : PrintedAs q cs) : '.' ∈ cs := by
  cases h <;> simp

/-- The text begins with digits. -/
theorem exists_whole (h : PrintedAs q cs) :
    ∃ whole more, cs = whole ++ more ∧ isDigits whole = true := by
  cases h with
  | plain integral => exact ⟨_, _, rfl, integral⟩
  | scaled integral => exact ⟨_, _, rfl, integral⟩

theorem isNumeral (h : PrintedAs q cs) : IsNumeral cs := by
  cases h with
  | plain integral fractional =>
    exact (isNumeral_of_isDigits integral).append ['.'] (isNumeral_of_isDigits fractional)
  | @scaled whole fraction power integral =>
    have hnumeral := (isNumeral_of_isDigits integral).append ('.' :: (fraction ++ ['e']))
      (isNumeral_integerText power)
    rwa [List.cons_append, List.append_assoc] at hnumeral

/-- **What is printed with a point is read as a decimal of the same value.** -/
theorem readUnsigned? (h : PrintedAs q cs) :
    ∃ d, Decimal.readUnsigned? cs = some d ∧ d.value = q := by
  cases h with
  | @plain whole fraction integral fractional denotes =>
    have hread := @readUnsigned?_point whole fraction [] integral (isDigit_of_mem fractional) nofun
    rw [List.append_nil, readExponent?, Option.map_some, Int.zero_sub] at hread
    exact ⟨_, hread, denotes⟩
  | @scaled whole fraction power integral fractional denotes =>
    have hread := @readUnsigned?_point whole fraction ('e' :: integerText power) integral
      (isDigit_of_mem fractional) (by rintro _ ⟨⟩; decide)
    rw [readExponent?_integerText, Option.map_some] at hread
    exact ⟨_, hread, denotes⟩

end PrintedAs

/-- Without a point there is a single digit, a letter and a power of ten. -/
theorem layout_of_single (hplain : ¬ d.IsPlain) (h : d.digits.length < 2) :
    ∃ c power, d.layout = c :: 'e' :: integerText power ∧ c.isDigit = true := by
  have hpos := d.length_digits_pos
  have hdigits := isDigit_of_mem d.isDigits_digits
  have hlayout : d.layout = scientific d.digits d.exponent := if_neg hplain
  rw [hlayout]
  match hsplit : d.digits with
  | [] => simp [hsplit] at hpos
  | [c] => exact ⟨c, _, rfl, hdigits c (by simp [hsplit])⟩
  | c :: e :: es =>
    rw [hsplit, List.length_cons, List.length_cons] at h
    omega

/-- **Only the scientific layout of a single digit has no point.** -/
theorem mem_point_layout_iff : '.' ∈ d.layout ↔ d.IsPlain ∨ 2 ≤ d.digits.length := by
  constructor
  · intro hmem
    by_contra hnot
    obtain ⟨hplain, hlength⟩ := not_or.mp hnot
    obtain ⟨c, power, hlayout, hc⟩ := layout_of_single hplain (by omega)
    rw [hlayout] at hmem
    rcases List.mem_cons.mp hmem with rfl | hmem
    · cases hc
    · rcases List.mem_cons.mp hmem with heq | hmem
      · cases heq
      · rcases isDigit_or_of_mem_integerText hmem with hdigit | heq
        · cases hdigit
        · cases heq
  · exact fun h => (printedAs_layout h).mem_point

end Decimal

end TypedImp
