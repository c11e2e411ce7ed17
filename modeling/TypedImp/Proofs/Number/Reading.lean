import TypedImp.Proofs.Printing.Expressions
import TypedImp.Value

/-!
# Reading the text of a value

A value given as text is read by trying one form after the other.  A text that begins with a digit
or a minus and ends with a digit can only be a number, and then it is read as an integer if that is
possible and as a floating-point number only if it has a point.

* `Text.trim_eq_self`: texts without white space around them.
* `Value.read?_numeral`, `Value.read?_of_point`, `Value.read?_of_no_point`: how the text of a
  number is read.
* `readInt32?_minus`, `readFloat32?_minus`: a minus negates what is read.
* `readInt32?_of_not_isDigit`: texts that are no integers.
-/

namespace TypedImp

/-! ## White space -/

/-- What neither begins nor ends with white space is not trimmed. -/
theorem Text.trim_eq_self {cs : List Char}
    (hfirst : ∀ c, cs.head? = some c → isWhiteSpace c = false)
    (hlast : ∀ c, cs.getLast? = some c → isWhiteSpace c = false) : trim cs = cs := by
  have hstay : ∀ {ds : List Char}, (∀ c, ds.head? = some c → isWhiteSpace c = false) →
      ds.dropWhile isWhiteSpace = ds := by
    intro ds h
    cases ds with
    | nil => rfl
    | cons d ds => exact List.dropWhile_cons_of_neg (by rw [h d rfl]; decide)
  rw [trim, hstay hfirst, hstay (by simpa [List.head?_reverse] using hlast), List.reverse_reverse]

theorem Text.isWhiteSpace_of_isDigit {c : Char} (h : c.isDigit = true) :
    isWhiteSpace c = false := by
  have hrange : 48 ≤ c.toNat ∧ c.toNat ≤ 57 := by
    simpa [Char.isDigit, UInt32.le_iff_toNat_le] using h
  simp only [isWhiteSpace, inRanges, whiteSpaceRanges, List.any_cons, List.any_nil,
    Bool.or_false, Bool.or_eq_false_iff, Bool.and_eq_false_iff, decide_eq_false_iff_not]
  omega

/-! ## Numerals -/

/-- A text with the ends of a number: a digit or a minus first, and a digit last. -/
structure IsNumeral (cs : List Char) : Prop where
  first : ∃ c ds, cs = c :: ds ∧ (c.isDigit = true ∨ c = '-')
  last : ∀ c, cs.getLast? = some c → c.isDigit = true

/-- **The text of a number is read as an integer, or else as a number with a point.** -/
theorem Value.read?_numeral {cs : List Char} (h : IsNumeral cs) :
    Value.read? (String.ofList cs) =
      match readInt32? cs with
      | some n => some (.int32 n)
      | none => if cs.contains '.' then (readFloat32? cs).map .float32 else none := by
  obtain ⟨c, ds, rfl, hc⟩ := h.first
  have hvisible : Text.isWhiteSpace c = false := by
    rcases hc with hc | rfl
    · exact Text.isWhiteSpace_of_isDigit hc
    · decide
  have htrim : Text.trim (c :: ds) = c :: ds := by
    refine Text.trim_eq_self ?_ fun d hd => Text.isWhiteSpace_of_isDigit (h.last d hd)
    rintro _ ⟨⟩
    exact hvisible
  have hne : ∀ d, d.isDigit = false → d ≠ '-' → c ≠ d := by
    rintro d hdigit hminus rfl
    rcases hc with hc | hc
    · rw [hc] at hdigit
      cases hdigit
    · exact hminus hc
  have hquote : Value.unquote? (c :: ds) = none := by
    unfold Value.unquote?
    split
    · next heq => exact absurd (List.cons.inj heq).1 (hne '"' (by decide) (by decide))
    · rfl
  have htrue : c :: ds ≠ "true".toList := fun heq =>
    hne 't' (by decide) (by decide) (List.cons.inj heq).1
  have hfalse : c :: ds ≠ "false".toList := fun heq =>
    hne 'f' (by decide) (by decide) (List.cons.inj heq).1
  rw [Value.read?, String.toList_ofList, htrim]
  cases readInt32? (c :: ds) <;>
    simp only [hquote, if_neg htrue, if_neg hfalse]

theorem isNumeral_of_isDigits {cs : List Char} (h : isDigits cs = true) : IsNumeral cs := by
  obtain ⟨d, ds, hsplit, hd, -⟩ := exists_of_isDigits h
  exact ⟨⟨d, ds, hsplit, .inl hd⟩, fun c hc => isDigit_of_mem h c (List.mem_of_getLast? hc)⟩

/-- Any text in the middle leaves the ends as they are. -/
theorem IsNumeral.append {left right : List Char} (hleft : IsNumeral left) (middle : List Char)
    (hright : IsNumeral right) : IsNumeral (left ++ (middle ++ right)) := by
  obtain ⟨c, cs, rfl, hc⟩ := hleft.first
  obtain ⟨d, ds, rfl, -⟩ := hright.first
  refine ⟨⟨c, cs ++ (middle ++ d :: ds), rfl, hc⟩, fun e he => hright.last e ?_⟩
  rwa [List.getLast?_append_of_ne_nil _ (by simp), List.getLast?_append_of_ne_nil _ (by simp)] at he

theorem IsNumeral.minus {cs : List Char} (h : IsNumeral cs) : IsNumeral ('-' :: cs) := by
  obtain ⟨c, ds, rfl, -⟩ := h.first
  refine ⟨⟨'-', c :: ds, rfl, .inr rfl⟩, fun d hd => h.last d ?_⟩
  rwa [List.getLast?_cons_cons] at hd

/-! ## Integers -/

/-- Digits behind a minus read as the integer that they denote, down to the least one. -/
theorem readInt32?_minus_eq_some_iff {digits : List Char} (h : isDigits digits = true)
    {value : Int32} : readInt32? ('-' :: digits) = some value ↔
      digitsValue digits ≤ 2147483648 ∧ value.toInt = -(digitsValue digits : Int) := by
  have hsign : Decimal.spanSign ('-' :: digits) = (true, digits) := rfl
  rw [readInt32?_eq_some, readInteger?_of_spanSign hsign h, if_pos rfl,
    show Int32.minValue.toInt = -2147483648 from rfl,
    show Int32.maxValue.toInt = 2147483647 from rfl]
  omega

/-- Except for the magnitude of the least integer, a minus negates what is read. -/
theorem readInt32?_minus {digits : List Char} (h : isDigits digits = true)
    (hne : digitsValue digits ≠ 2147483648) :
    readInt32? ('-' :: digits) = (readInt32? digits).map fun n => -n := by
  rcases Nat.lt_or_gt_of_ne hne with hlt | hgt
  · have hmin : Int32.minValue.toInt ≤ (digitsValue digits : Int) :=
      Int.le_trans (by decide) (Int.natCast_nonneg _)
    have hmax : (digitsValue digits : Int) ≤ Int32.maxValue.toInt := by
      rw [show Int32.maxValue.toInt = 2147483647 from rfl]
      omega
    have hvalue := Int32.toInt_ofInt_of_le hmin (by omega)
    have hneg : (-Int32.ofInt (digitsValue digits)).toInt = -(digitsValue digits : Int) := by
      rw [Int32.toInt_neg, hvalue]
      exact Int.bmod_eq_of_le (by omega) (by omega)
    rw [(readInt32?_eq_some_iff h).mpr ⟨by omega, hvalue⟩,
      (readInt32?_minus_eq_some_iff h).mpr ⟨by omega, hneg⟩]
    rfl
  · have hnone : readInt32? digits = none := Option.eq_none_iff_forall_ne_some.mpr fun n hn =>
      absurd ((readInt32?_eq_some_iff h).mp hn).1 (by omega)
    rw [hnone]
    exact Option.eq_none_iff_forall_ne_some.mpr fun n hn =>
      absurd ((readInt32?_minus_eq_some_iff h).mp hn).1 (by omega)

/-- Behind the sign of an integer there are only digits. -/
theorem readInt32?_of_not_isDigit {cs : List Char} {c : Char} (hmem : c ∈ cs)
    (hdigit : c.isDigit = false) (hminus : c ≠ '-') (hplus : c ≠ '+') : readInt32? cs = none := by
  have hrest : c ∈ (Decimal.spanSign cs).2 := by
    unfold Decimal.spanSign
    split
    · exact (List.mem_cons.mp hmem).resolve_left hminus
    · exact (List.mem_cons.mp hmem).resolve_left hplus
    · exact hmem
  have hnot : (Decimal.spanSign cs).2.all Char.isDigit = false :=
    List.all_eq_false.mpr ⟨c, hrest, by rw [hdigit]; decide⟩
  simp [readInt32?, readInteger?, hnot]

/-- Without a point the text of a number is that of an integer. -/
theorem Value.read?_of_no_point {cs : List Char} (h : IsNumeral cs) (hpoint : '.' ∉ cs) :
    Value.read? (String.ofList cs) = (readInt32? cs).map .int32 := by
  rw [Value.read?_numeral h]
  cases readInt32? cs with
  | some n => rfl
  | none => exact if_neg (mt List.contains_iff_mem.mp hpoint)

/-! ## Floating-point numbers -/

theorem spanDigits_append {digits rest : List Char} (h : ∀ c ∈ digits, c.isDigit = true)
    (hrest : ∀ c, rest.head? = some c → c.isDigit = false) :
    spanDigits (digits ++ rest) = (digits, rest) := by
  rw [spanDigits, List.takeWhile_append_of_pos h, List.dropWhile_append_of_pos h]
  cases rest with
  | nil => simp
  | cons c cs =>
    have hc : ¬ c.isDigit = true := by rw [hrest c rfl]; decide
    rw [List.takeWhile_cons_of_neg hc, List.dropWhile_cons_of_neg hc, List.append_nil]

/-- Digits with a point among them are a decimal with as many places as digits behind the point. -/
theorem readUnsigned?_point {whole fraction rest : List Char} (hwhole : isDigits whole = true)
    (hfraction : ∀ c ∈ fraction, c.isDigit = true)
    (hrest : ∀ c, rest.head? = some c → c.isDigit = false) :
    Decimal.readUnsigned? (whole ++ '.' :: (fraction ++ rest)) =
      (Decimal.readExponent? rest).map fun exponent =>
        ⟨digitsValue (whole ++ fraction), exponent - fraction.length⟩ := by
  have hpoint : ∀ c, ('.' :: (fraction ++ rest)).head? = some c → c.isDigit = false := by
    rintro _ ⟨⟩
    decide
  have hne : whole.isEmpty = false := by
    obtain ⟨d, ds, rfl, -, -⟩ := exists_of_isDigits hwhole
    rfl
  rw [Decimal.readUnsigned?, spanDigits_append (isDigit_of_mem hwhole) hpoint]
  simp only [spanDigits_append hfraction hrest, hne, Bool.false_and, Bool.false_eq_true, if_false]

/-- With a point the text of a number is that of a floating-point number. -/
theorem Value.read?_of_point {cs : List Char} (h : IsNumeral cs) (hpoint : '.' ∈ cs) :
    Value.read? (String.ofList cs) = (readFloat32? cs).map .float32 := by
  rw [Value.read?_numeral h,
    readInt32?_of_not_isDigit hpoint (by decide) (by decide) (by decide)]
  exact if_pos (List.contains_iff_mem.mpr hpoint)

theorem spanSign_of_append {whole rest : List Char} (h : isDigits whole = true) :
    Decimal.spanSign (whole ++ rest) = (false, whole ++ rest) := by
  obtain ⟨d, ds, rfl, hd, -⟩ := exists_of_isDigits h
  unfold Decimal.spanSign
  split
  · next heq => exact absurd (List.cons.inj heq).1 (by rintro rfl; cases hd)
  · next heq => exact absurd (List.cons.inj heq).1 (by rintro rfl; cases hd)
  · rfl

/-- A decimal is read as the nearest number, unless that is infinite. -/
theorem readFloat32?_point {whole fraction : List Char} (hwhole : isDigits whole = true)
    (hfraction : isDigits fraction = true) {v : Float32}
    (hv : v = Decimal.toFloat32 ⟨digitsValue (whole ++ fraction), -(fraction.length : Int)⟩) :
    readFloat32? (whole ++ '.' :: fraction) = if v.isFinite then some v else none := by
  have hread : Decimal.readUnsigned? (whole ++ '.' :: fraction) =
      some ⟨digitsValue (whole ++ fraction), -(fraction.length : Int)⟩ := by
    have h := @readUnsigned?_point whole fraction [] hwhole (isDigit_of_mem hfraction) nofun
    rwa [List.append_nil, Decimal.readExponent?, Option.map_some, Int.zero_sub] at h
  simp only [readFloat32?, Decimal.read?, spanSign_of_append hwhole, hread, Option.map_some, ← hv,
    Bool.false_eq_true, if_false]

/-- A minus in front of a text that begins with a digit negates what is read. -/
theorem readFloat32?_minus {whole more : List Char} (h : isDigits whole = true) :
    readFloat32? ('-' :: (whole ++ more)) = (readFloat32? (whole ++ more)).map fun v => -v := by
  have hminus : Decimal.spanSign ('-' :: (whole ++ more)) = (true, whole ++ more) := rfl
  simp only [readFloat32?, Decimal.read?, spanSign_of_append h, hminus]
  cases Decimal.readUnsigned? (whole ++ more) with
  | none => rfl
  | some decimal =>
    simp only [Option.map_some]
    split <;> rfl

end TypedImp
