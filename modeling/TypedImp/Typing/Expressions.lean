import TypedImp.Typing.Context

/-!
# Types of expressions

Operands are looked at before operators and from left to right, so the first error in that order is
the one reported.  There are no conversions: both sides of an operator have the same type.

* `UnaryOp.accepts`, `BinaryOp.accepts`, `arityError?`: which operands and arguments are allowed.
* `typeOf`: the type of an expression.
-/

namespace TypedImp

/-- The error of finding one type where another is required. -/
def mismatch (expected received : Ty) (span : Span) : Error :=
  ⟨.typeMismatch expected.spelling received.spelling, span⟩

namespace UnaryOp

/-- Whether an operator applies to operands of a type. -/
def accepts : UnaryOp → Ty → Bool
  | not, t => t = .bool
  | plus, t | minus, t => t.isNumeric

end UnaryOp

namespace BinaryOp

/-- Whether an operator applies to two operands of a type. -/
def accepts (op : BinaryOp) (t : Ty) : Bool :=
  if op.isEquality then t.isNumeric || t = .bool else t.isNumeric

/-- The type of the result for operands of a type. -/
def resultTy (op : BinaryOp) (t : Ty) : Ty :=
  if op.isArithmetic then t else .bool

end BinaryOp

namespace Literal

/-- The type of a number literal. -/
def ty : Literal → Ty
  | int32 _ => .int32
  | float32 _ => .float32

end Literal

/-- The error of calling with the wrong number of arguments, if the number is wrong. -/
def arityError? (expected : Nat) (arguments : List Expr) (span : Span) : Option Error :=
  match arguments[expected]? with
  | some extra => some ⟨.unexpectedArguments expected arguments.length, extra.span⟩
  | none =>
    if arguments.length < expected then
      some ⟨.missingArguments expected arguments.length, span⟩
    else none

mutual

/-- The type of an expression.  What is called has to be the name of a function. -/
def typeOf (Γ : Context) : Expr → Except Error Ty
  | .number value _ _ => .ok value.ty
  | .string _ _ => .ok .string
  | .bool _ _ => .ok .bool
  | .name name span =>
    match Γ.resolve? name with
    | some (.value type) => .ok type.ty
    | some (.function _) | some .builtin => .error ⟨.functionUsedAsValue name, span⟩
    | none => .error ⟨.unknownIdentifier name, span⟩
  | .unary op operand span => do
    let t ← typeOf Γ operand
    if op.accepts t then return t
    else throw ⟨.invalidOperand op.symbol t.spelling, span⟩
  | .binary op left right span => do
    let s ← typeOf Γ left
    let t ← typeOf Γ right
    if s ≠ t then throw (mismatch s t right.span)
    else if op.accepts s then return op.resultTy s
    else throw ⟨.invalidOperand op.symbol s.spelling, span⟩
  | .call callee arguments span =>
    match callee.named? with
    | none => do
      let t ← typeOf Γ callee
      throw ⟨.notCallable "expression" t.spelling, callee.span⟩
    | some (name, nameSpan) =>
      match Γ.resolve? name with
      | none => .error ⟨.unknownIdentifier name, nameSpan⟩
      | some (.value type) => .error ⟨.notCallable name type.ty.spelling, nameSpan⟩
      | some .builtin => do
        checkEach Γ arguments
        return Builtin.printSignature.result
      | some (.function signature) =>
        match arityError? signature.parameters.length arguments span with
        | some error => .error error
        | none => do
          checkArguments Γ arguments signature.parameters
          return signature.result

/-- Arguments against the types of the parameters, one after the other. -/
def checkArguments (Γ : Context) : List Expr → List Ty → Except Error Unit
  | argument :: arguments, parameter :: parameters => do
    let t ← typeOf Γ argument
    if t ≠ parameter then
      throw ⟨.argumentMismatch parameter.spelling t.spelling, argument.span⟩
    else checkArguments Γ arguments parameters
  | _, _ => .ok ()

/-- Expressions that may have any types, as long as they have one. -/
def checkEach (Γ : Context) : List Expr → Except Error Unit
  | [] => .ok ()
  | e :: es => do
    let _ ← typeOf Γ e
    checkEach Γ es

end

end TypedImp
