import TypedImp.Source.Position

/-!
# Expressions

* `Literal`: the value of a number literal.
* `UnaryOp`, `BinaryOp`: the operators and how they are written.
* `Expr`: expressions, each with the stretch of source it was read from.
-/

namespace TypedImp

/-- The value of a number literal; whether it is an integer is settled when it is read. -/
inductive Literal where
  | int32 (value : Int32)
  | float32 (value : Float32)
deriving DecidableEq, Repr

/-- Operators with one operand. -/
inductive UnaryOp where
  | not
  | plus
  | minus
deriving DecidableEq, Repr

namespace UnaryOp

/-- How an operator is written. -/
def symbol : UnaryOp → String
  | not => "!"
  | plus => "+"
  | minus => "-"

end UnaryOp

/-- Operators with two operands. -/
inductive BinaryOp where
  | add
  | sub
  | mul
  | div
  | eq
  | ne
  | lt
  | le
  | gt
  | ge
deriving DecidableEq, Repr

namespace BinaryOp

/-- How an operator is written. -/
def symbol : BinaryOp → String
  | add => "+"
  | sub => "-"
  | mul => "*"
  | div => "/"
  | eq => "=="
  | ne => "!="
  | lt => "<"
  | le => "<="
  | gt => ">"
  | ge => ">="

/-- Whether the result has the type of the operands. -/
def isArithmetic : BinaryOp → Bool
  | add | sub | mul | div => true
  | _ => false

/-- Whether the operator only tells equal values from different ones. -/
def isEquality : BinaryOp → Bool
  | eq | ne => true
  | _ => false

end BinaryOp

/-- Expressions. -/
inductive Expr where
  /-- A number, with its spelling. -/
  | number (value : Literal) (text : String) (span : Span)
  /-- A string literal, without its quotes. -/
  | string (value : String) (span : Span)
  | bool (value : Bool) (span : Span)
  | name (name : String) (span : Span)
  | unary (op : UnaryOp) (operand : Expr) (span : Span)
  | binary (op : BinaryOp) (left right : Expr) (span : Span)
  | call (callee : Expr) (arguments : List Expr) (span : Span)
deriving Repr

namespace Expr

/-- The stretch of source an expression was read from. -/
def span : Expr → Span
  | number _ _ span | string _ span | bool _ span | name _ span | unary _ _ span
  | binary _ _ _ span | call _ _ span => span

/-- The name and its place, if the expression is nothing but a name. -/
def named? : Expr → Option (String × Span)
  | name n span => some (n, span)
  | _ => none

end Expr

end TypedImp
