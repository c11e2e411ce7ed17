import TypedImp.Number.Decimal

/-!
# Decimals as binary floating-point numbers

A finite binary floating-point number of thirty-two bits is `significand × 2 ^ (scale - 149)` with
a significand below `2 ^ 24`.  Written with the smallest possible scale its bits, read as a natural
number, are `scale × 2 ^ 23 + significand`: the leading bit of a large significand is the carry into
the scale.  So rounding a fraction comes down to choosing the scale and rounding one division.

* `Binary32.nearestBits`: the number nearest to a fraction, ties to the even significand.
* `Decimal.toFloat32`: the number nearest to a decimal.
* `Binary32.classify`: sign, significand and scale of a number, if it is finite.
-/

namespace TypedImp

namespace Binary32

/-- The bits of positive infinity; all bits below are finite numbers. -/
def infinityBits : Nat := 0x7F800000

/-- The least significand with all of its digits, `2 ^ 23`. -/
def leadingBit : Nat := 0x800000

/-- The bit that makes a number negative, `2 ^ 31`. -/
def signBit : Nat := 0x80000000

/-- The quotient rounded to the nearest natural number, a tie to the even one. -/
def divideToEven (n d : Nat) : Nat :=
  let q := n / d
  let r := n % d
  if 2 * r < d then q
  else if d < 2 * r then q + 1
  else q + q % 2

/-- The least scale at which `n / d`, counted in units of `2 ^ -149`, is below `2 ^ 24`. -/
def leastScale (n d : Nat) : Nat :=
  -- The logarithms give the scale up to one.
  let scale := n.log2 - d.log2 - 24
  if n < d * Nat.pow 2 (scale + 24) then scale else scale + 1

/-- The bits of the number nearest to `n / d`, a tie to the even significand; infinity when that is
too large. -/
def nearestBits (n d : Nat) : Nat :=
  let n := n * Nat.pow 2 149
  let scale := leastScale n d
  min (scale * leadingBit + divideToEven n (d * Nat.pow 2 scale)) infinityBits

/-- Sign, significand and scale of a finite number `± significand × 2 ^ (scale - 149)`. -/
structure Parts where
  negative : Bool
  significand : Nat
  scale : Nat
deriving DecidableEq, Repr

/-- What the bits of a number stand for. -/
inductive Class where
  | finite (parts : Parts)
  | infinite (negative : Bool)
  | notANumber
deriving DecidableEq, Repr

/-- Sign, significand and scale of a number, if it is finite. -/
def classify (v : Float32) : Class :=
  let bits := v.toBits.toNat
  let negative : Bool := signBit ≤ bits
  let magnitude := bits % signBit
  let exponent := magnitude / leadingBit
  let fraction := magnitude % leadingBit
  if magnitude = infinityBits then .infinite negative
  else if infinityBits < magnitude then .notANumber
  else if exponent = 0 then .finite ⟨negative, fraction, 0⟩
  else .finite ⟨negative, leadingBit + fraction, exponent - 1⟩

end Binary32

namespace Decimal

/-- The bits of the number nearest to a decimal. -/
def nearestBits (d : Decimal) : Nat :=
  let c := d.canonical
  if c.coefficient = 0 then 0
  -- Far outside of the range no power of ten has to be computed.
  else if 40 < c.magnitude then Binary32.infinityBits
  else if c.magnitude < -50 then 0
  else if 0 ≤ c.exponent then Binary32.nearestBits (c.coefficient * Nat.pow 10 c.exponent.toNat) 1
  else Binary32.nearestBits c.coefficient (Nat.pow 10 (-c.exponent).toNat)

/-- The floating-point number nearest to a decimal. -/
def toFloat32 (d : Decimal) : Float32 :=
  Float32.ofBits (UInt32.ofNat d.nearestBits)

end Decimal

/-- Reads the text of a floating-point number; only finite numbers have a text. -/
def readFloat32? (cs : List Char) : Option Float32 :=
  match Decimal.read? cs with
  | none => none
  | some (negative, d) =>
    let v := d.toFloat32
    if v.isFinite then some (if negative then -v else v) else none

end TypedImp
