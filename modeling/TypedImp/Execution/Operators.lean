import TypedImp.Error
import TypedImp.Syntax.Expr
import TypedImp.Value

/-!
# What operators compute

Integers are computed modulo `2 ^ 32`; dividing by zero is the only fault they have.
Floating-point numbers never fault.

* `UnaryOp.eval?`, `BinaryOp.evalInt`, `BinaryOp.evalFloat`: operators on values of one kind.
* `BinaryOp.eval`: operators on any two values.
-/

namespace TypedImp

namespace Literal

/-- The value of a number literal. -/
def toValue : Literal → Value
  | int32 n => .int32 n
  | float32 v => .float32 v

end Literal

namespace UnaryOp

/-- The result of an operator on a value, if it has one. -/
def eval? : UnaryOp → Value → Option Value
  | not, .bool b => some (.bool !b)
  | minus, .int32 n => some (.int32 (-n))
  | minus, .float32 v => some (.float32 (-v))
  | plus, .int32 n => some (.int32 n)
  | plus, .float32 v => some (.float32 v)
  | _, _ => none

end UnaryOp

namespace BinaryOp

/-- Operators on integers.  Results wrap around and division truncates. -/
def evalInt : BinaryOp → Int32 → Int32 → Except Cause Value
  | add, m, n => .ok (.int32 (m + n))
  | sub, m, n => .ok (.int32 (m - n))
  | mul, m, n => .ok (.int32 (m * n))
  | div, m, n => if n = 0 then .error .divisionByZero else .ok (.int32 (m / n))
  | eq, m, n => .ok (.bool (m = n))
  | ne, m, n => .ok (.bool (m ≠ n))
  | lt, m, n => .ok (.bool (m < n))
  | le, m, n => .ok (.bool (m ≤ n))
  | gt, m, n => .ok (.bool (n < m))
  | ge, m, n => .ok (.bool (n ≤ m))

/-- Operators on floating-point numbers.  Comparisons with something that is not a number fail,
except for being different. -/
def evalFloat : BinaryOp → Float32 → Float32 → Value
  | add, v, w => .float32 (v + w)
  | sub, v, w => .float32 (v - w)
  | mul, v, w => .float32 (v * w)
  | div, v, w => .float32 (v / w)
  | eq, v, w => .bool (v == w)
  | ne, v, w => .bool (!(v == w))
  | lt, v, w => .bool (v < w)
  | le, v, w => .bool (v ≤ w)
  | gt, v, w => .bool (w < v)
  | ge, v, w => .bool (w ≤ v)

/-- The result of an operator on two values, or what is wrong with them. -/
def eval (op : BinaryOp) : Value → Value → Except Cause Value
  | .int32 m, .int32 n => op.evalInt m n
  | .float32 v, .float32 w => .ok (op.evalFloat v w)
  | v, w =>
    match op, v, w with
    | eq, .bool a, .bool b => .ok (.bool (a == b))
    | ne, .bool a, .bool b => .ok (.bool (a != b))
    | op, v, w =>
      .error (.inconsistency s!"`{op.symbol}` applied to {v.ty.spelling} and {w.ty.spelling}")

end BinaryOp

end TypedImp
