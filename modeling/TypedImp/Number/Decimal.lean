/-!
# Decimal numbers and their text

A decimal is a natural number times a power of ten.  The same number has many such forms, so
everything that looks at a decimal looks at its canonical form, which has no trailing zeros.

* `digitsValue`: the number that a run of digits denotes.
* `Decimal.canonical`: the form without trailing zeros.
* `Decimal.read?`: a decimal with an optional sign, point and exponent.
* `readInteger?`: a signed integer within bounds.
* `readInt32?`, `readInt64?`: the bounds of thirty-two and of sixty-four bits.
-/

namespace TypedImp

/-- The number that a run of decimal digits denotes. -/
def digitsValue (cs : List Char) : Nat :=
  cs.foldl (fun n c => 10 * n + (c.toNat - '0'.toNat)) 0

/-- Splits off the longest run of decimal digits. -/
def spanDigits (cs : List Char) : List Char × List Char :=
  (cs.takeWhile Char.isDigit, cs.dropWhile Char.isDigit)

/-- The number `coefficient × 10 ^ exponent`. -/
structure Decimal where
  coefficient : Nat
  exponent : Int
deriving DecidableEq, Repr

namespace Decimal

/-- Moves up to `fuel` trailing zeros of the coefficient into the exponent. -/
def stripZeros : (fuel : Nat) → Decimal → Decimal
  | 0, d => d
  | fuel + 1, d =>
    if d.coefficient % 10 = 0 then stripZeros fuel ⟨d.coefficient / 10, d.exponent + 1⟩ else d

/-- The form without trailing zeros.  Zero is `0 × 10 ^ 0`. -/
def canonical (d : Decimal) : Decimal :=
  -- A number that ends in `k` zeros is at least `2 ^ k`, so its logarithm is fuel enough.
  if d.coefficient = 0 then ⟨0, 0⟩ else stripZeros d.coefficient.log2 d

/-- The digits of the coefficient. -/
def digits (d : Decimal) : List Char := Nat.toDigits 10 d.coefficient

/-- The power of ten of the leading digit. -/
def magnitude (d : Decimal) : Int := d.digits.length - 1 + d.exponent

/-! ## Reading -/

/-- Splits off a sign; the answer is whether it was a minus. -/
def spanSign : List Char → Bool × List Char
  | '-' :: cs => (true, cs)
  | '+' :: cs => (false, cs)
  | cs => (false, cs)

/-- Reads the rest of a number from where its exponent may stand.  Nothing may follow. -/
def readExponent? : List Char → Option Int
  | [] => some 0
  | c :: cs =>
    if c = 'e' ∨ c = 'E' then
      let (negative, cs) := spanSign cs
      if cs.isEmpty ∨ !cs.all Char.isDigit then none
      else if negative then some (-(digitsValue cs : Int)) else some (digitsValue cs : Int)
    else none

/-- Reads digits with an optional point among or around them and an optional exponent.  There is
a digit on at least one side of the point. -/
def readUnsigned? (cs : List Char) : Option Decimal :=
  let (whole, cs) := spanDigits cs
  let (fraction, cs) :=
    match cs with
    | '.' :: cs => spanDigits cs
    | cs => ([], cs)
  if whole.isEmpty && fraction.isEmpty then none
  else
    (readExponent? cs).map fun exponent =>
      ⟨digitsValue (whole ++ fraction), exponent - fraction.length⟩

/-- Reads a number with an optional sign; the first answer is whether it is negative. -/
def read? (cs : List Char) : Option (Bool × Decimal) :=
  let (negative, cs) := spanSign cs
  (readUnsigned? cs).map fun d => (negative, d)

end Decimal

/-- Reads an integer with an optional sign that lies within the bounds. -/
def readInteger? (least greatest : Int) (cs : List Char) : Option Int :=
  let (negative, cs) := Decimal.spanSign cs
  if cs.isEmpty ∨ !cs.all Char.isDigit then none
  else
    let value : Int := if negative then -(digitsValue cs : Int) else digitsValue cs
    if least ≤ value ∧ value ≤ greatest then some value else none

/-- Reads an integer that fits thirty-two bits. -/
def readInt32? (cs : List Char) : Option Int32 :=
  (readInteger? Int32.minValue.toInt Int32.maxValue.toInt cs).map Int32.ofInt

/-- Reads an integer that fits sixty-four bits. -/
def readInt64? (cs : List Char) : Option Int64 :=
  (readInteger? Int64.minValue.toInt Int64.maxValue.toInt cs).map Int64.ofInt

end TypedImp
