import TypedImp.Grammar.Cursor
import TypedImp.Grammar.Table
import TypedImp.Number.Binary32

/-!
# Parsing expressions

An expression is read by its first token and then extended as long as the token behind it binds
more tightly than what stands before.  Equal precedence does not extend, so operators of one
precedence group to the left.

* `Parse.number`, `Parse.primary`: literals and names.
* `Parse.expr`: an expression above a given precedence.
* `Parse.unaryExpr`, `Parse.groupExpr`: expressions that begin with an operator or a parenthesis.
* `Parse.binaryExpr`, `Parse.callExpr`: going on from a left side.
-/

namespace TypedImp.Parse

/-- Whether a number, a point and another number stand next to each other with nothing between. -/
def formsDecimal (whole point fraction : Token) : Bool :=
  point.kind = .dot && fraction.kind = .number &&
    whole.span.stop.offset = point.span.start.offset &&
    point.span.stop.offset = fraction.span.start.offset

/-- A number literal: digits, or digits with a point among them. -/
def number : Parse Expr := do
  let whole ← next
  let c ← get
  let fraction := c.peek 1
  if formsDecimal whole c.current fraction then
    let _ ← next
    let _ ← next
    let text := whole.value ++ "." ++ fraction.value
    let span := whole.span.join fraction.span
    match readFloat32? text.toList with
    | some value => return .number (.float32 value) text span
    | none => raise ⟨.unreadableNumber text, span⟩
  else
    match readInt32? whole.value.toList with
    | some value => return .number (.int32 value) whole.value whole.span
    | none => raise ⟨.unreadableNumber whole.value, whole.span⟩

/-- A literal or a name. -/
def primary : Parse Expr := do
  let c ← get
  match c.current.kind with
  | .number => number
  | .identifier =>
    let token ← next
    return .name token.value token.span
  | .string =>
    let token ← next
    return .string token.value token.span
  | .trueWord =>
    let token ← next
    return .bool true token.span
  | .falseWord =>
    let token ← next
    return .bool false token.span
  | _ => raise c.unexpected

/-- The magnitude of the least integer, one more than that of the greatest. -/
def leastMagnitude : Nat := 2147483648

/-- Whether the current token is the magnitude of the least integer, which has no other form than
with a minus directly before it.  It does not fit the integers of the language, so it is read as a
wider one. -/
def atLeastMagnitude (c : Cursor) : Bool :=
  c.current.kind = .number && (c.peek 1).kind ≠ .dot &&
    readInt64? c.current.value.toList = some (Int64.ofNat leastMagnitude)

mutual

/-- An expression made of what binds more tightly than `above`. -/
def expr (g : Grammar) : (fuel : Nat) → (above : Precedence) → Parse Expr
  | 0, _ => exhausted
  | fuel + 1, above => do
    match g.start (← currentKind) with
    | none => fail "expected an expression"
    | some rule =>
      let left ← startExpr g fuel rule
      extendExpr g fuel above left

/-- The beginning of an expression, by the rule of its first token. -/
def startExpr (g : Grammar) : (fuel : Nat) → StartRule → Parse Expr
  | 0, _ => exhausted
  | _ + 1, .primary => primary
  | fuel + 1, .operator => unaryExpr g fuel
  | fuel + 1, .group => groupExpr g fuel

/-- Extends an expression as long as what follows binds more tightly than `above`. -/
def extendExpr (g : Grammar) : (fuel : Nat) → (above : Precedence) → (left : Expr) → Parse Expr
  | 0, _, _ => exhausted
  | fuel + 1, above, left => do
    match g.follow (← currentKind) with
    | none => return left
    | some (precedence, rule) =>
      if above < precedence then
        let left ← followExpr g fuel precedence rule left
        extendExpr g fuel above left
      else return left

/-- One extension of an expression, by the rule of the token behind it. -/
def followExpr (g : Grammar) :
    (fuel : Nat) → Precedence → FollowRule → (left : Expr) → Parse Expr
  | 0, _, _, _ => exhausted
  | fuel + 1, precedence, .operator, left => binaryExpr g fuel precedence left
  | fuel + 1, _, .call, left => callExpr g fuel left

/-- An operator and its operand. -/
def unaryExpr (g : Grammar) : (fuel : Nat) → Parse Expr
  | 0 => exhausted
  | fuel + 1 => do
    let operator ← next
    let op := UnaryOp.ofKind operator.kind
    let c ← get
    if op = .minus && atLeastMagnitude c then
      let magnitude ← next
      return .number (.int32 Int32.minValue) ("-" ++ magnitude.value)
        (operator.span.join magnitude.span)
    else
      let operand ← expr g fuel .unary
      return .unary op operand (operator.span.join operand.span)

/-- An expression between parentheses; the parentheses leave no trace. -/
def groupExpr (g : Grammar) : (fuel : Nat) → Parse Expr
  | 0 => exhausted
  | fuel + 1 => do
    let _ ← next
    let inner ← expr g fuel .lowest
    let _ ← expectFor .closeParen "expected `)` to close the group"
    return inner

/-- An operator and its right operand, after the left one. -/
def binaryExpr (g : Grammar) : (fuel : Nat) → Precedence → (left : Expr) → Parse Expr
  | 0, _, _ => exhausted
  | fuel + 1, precedence, left => do
    let operator ← next
    match BinaryOp.ofKind? operator.kind with
    | none => raise ⟨.unexpectedToken operator.value, operator.span⟩
    | some op =>
      let right ← expr g fuel precedence
      return .binary op left right (left.span.join right.span)

/-- The arguments of a call, after what is called. -/
def callExpr (g : Grammar) : (fuel : Nat) → (callee : Expr) → Parse Expr
  | 0, _ => exhausted
  | fuel + 1, callee => do
    let _ ← next
    let arguments ← untilParen (expr g fuel .lowest) fuel
    let close ← expectFor .closeParen "expected `,` or `)` in call"
    return .call callee arguments (callee.span.join close.span)

end

end TypedImp.Parse
