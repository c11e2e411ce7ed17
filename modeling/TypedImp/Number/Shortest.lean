import TypedImp.Number.Binary32

/-!
# Floating-point numbers as text

A number is shown by the fewest decimal digits that read back as the same number, and among those
by the ones nearest to it.  Candidates are tried in order of their number of digits: the value cut
off at that many digits, and the next decimal above.  A candidate counts only if reading it gives
the same bits, so that what is shown reads back by construction.

* `Binary32.shortest`: the decimal that stands for a positive number.
* `Decimal.layout`: positional or scientific text of a decimal.
* `showFloat32`: the text of any number.
-/

namespace TypedImp

namespace Binary32

/-- A positive fraction. -/
structure Fraction where
  numerator : Nat
  denominator : Nat

/-- The exact value of a significand at a scale. -/
def value (significand scale : Nat) : Fraction :=
  if 149 ≤ scale then ⟨significand * Nat.pow 2 (scale - 149), 1⟩
  else ⟨significand, Nat.pow 2 (149 - scale)⟩

/-- The value times `10 ^ shift`, cut off to a natural number. -/
def Fraction.scaled (f : Fraction) (shift : Int) : Nat :=
  if 0 ≤ shift then f.numerator * Nat.pow 10 shift.toNat / f.denominator
  else f.numerator / (f.denominator * Nat.pow 10 (-shift).toNat)

/-- The power of ten of the leading digit of a number.  With sixty places after the point even the
least positive number has digits before it. -/
def leadingPower (f : Fraction) : Int :=
  (Nat.toDigits 10 (f.scaled 60)).length - 1 - 60

/-- Whether the value is at least half way from `n` to `n + 1`, in units of `10 ^ exponent`. -/
def Fraction.isUpper (f : Fraction) (n : Nat) (exponent : Int) : Bool :=
  if 0 ≤ exponent then
    (2 * n + 1) * (f.denominator * Nat.pow 10 exponent.toNat) ≤ 2 * f.numerator
  else (2 * n + 1) * f.denominator ≤ 2 * (f.numerator * Nat.pow 10 (-exponent).toNat)

/-- The decimal in units of `10 ^ exponent` that reads back as `bits`, the nearer one if there are
two and the upper one if they are equally near. -/
def candidate? (f : Fraction) (bits : Nat) (exponent : Int) : Option Decimal :=
  let n := f.scaled (-exponent)
  let lower : Decimal := (⟨n, exponent⟩ : Decimal).canonical
  let upper : Decimal := (⟨n + 1, exponent⟩ : Decimal).canonical
  match lower.nearestBits == bits, upper.nearestBits == bits with
  | true, true => some (if f.isUpper n exponent then upper else lower)
  | true, false => some lower
  | false, true => some upper
  | false, false => none

/-- All the digits of a value. -/
def allDigits (significand scale : Nat) : Decimal :=
  -- A power of two below one ends after as many places as its exponent.
  if 149 ≤ scale then (⟨significand * Nat.pow 2 (scale - 149), 0⟩ : Decimal).canonical
  else
    (⟨significand * Nat.pow 5 (149 - scale), -((149 - scale : Nat) : Int)⟩ : Decimal).canonical

/-- The decimal with the fewest digits that reads back as a positive number.  Nine digits always
suffice. -/
def shortest (significand scale : Nat) : Decimal :=
  let f := value significand scale
  let bits := scale * leadingBit + significand
  let power := leadingPower f
  ((List.range 9).findSome? fun (i : Nat) => candidate? f bits (power - i)).getD
    (allDigits significand scale)

end Binary32

namespace Decimal

/-- `n` zeros. -/
def zeros (n : Nat) : List Char := List.replicate n '0'

/-- Positional text, with at least one digit on each side of the point. -/
def positional (digits : List Char) (exponent : Int) : List Char :=
  let point := digits.length + exponent
  if point ≤ 0 then ['0', '.'] ++ zeros (-point).toNat ++ digits
  else if 0 ≤ exponent then digits ++ zeros exponent.toNat ++ ['.', '0']
  else digits.take point.toNat ++ ['.'] ++ digits.drop point.toNat

/-- The text of an integer. -/
def integerText (n : Int) : List Char :=
  if n < 0 then '-' :: Nat.toDigits 10 (-n).toNat else Nat.toDigits 10 n.toNat

/-- Scientific text: a digit, the rest of the digits after a point if there are any, and the power
of ten. -/
def scientific (digits : List Char) (exponent : Int) : List Char :=
  let power := integerText (digits.length - 1 + exponent)
  match digits with
  | [] => []
  | [d] => [d, 'e'] ++ power
  | d :: ds => [d, '.'] ++ ds ++ ['e'] ++ power

/-- The text of a canonical decimal: positional for zero and from `10 ^ -4` up to `10 ^ 16`, and
scientific outside. -/
def layout (d : Decimal) : List Char :=
  if -4 ≤ d.magnitude ∧ d.magnitude < 16 then positional d.digits d.exponent
  else scientific d.digits d.exponent

end Decimal

/-- The text of a floating-point number. -/
def showFloat32 (v : Float32) : String :=
  match Binary32.classify v with
  | .notANumber => "NaN"
  | .infinite negative => if negative then "-inf" else "inf"
  | .finite ⟨negative, significand, scale⟩ =>
    let digits : Decimal := if significand = 0 then ⟨0, 0⟩ else Binary32.shortest significand scale
    String.ofList (if negative then '-' :: digits.layout else digits.layout)

end TypedImp
