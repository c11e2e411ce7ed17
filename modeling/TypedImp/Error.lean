import TypedImp.Source.Position
import TypedImp.Text.Quoted

/-!
# What can go wrong

An error is a cause with the stretch of source it belongs to.  The wording of every message lives
here and nowhere else; the rest of the library only names causes.

* `Cause`: everything that can go wrong, from scanning to running.
* `Cause.name`, `Cause.message`, `Cause.tip`: how a cause is shown.
* `Cause.stage`: whether it is found before the program runs.
* `Stop`: why a computation on fuel ended without a result.
-/

namespace TypedImp

/-- When a problem is found: before the program runs, or while it runs. -/
inductive Stage where
  | compile
  | runtime
deriving DecidableEq, Repr

namespace Stage

/-- The name of the stage. -/
def name : Stage → String
  | .compile => "Compile"
  | .runtime => "Runtime"

end Stage

/-- Everything that can go wrong with a program. -/
inductive Cause where
  /-- No token begins with this character. -/
  | unrecognisedToken (token : String)
  /-- A string literal reaches the end of its line. -/
  | unterminatedString
  /-- A block comment reaches the end of the text. -/
  | unterminatedComment
  /-- A token where another one was required. -/
  | unexpectedToken (token : String)
  /-- A token where something else was required, with what that was. -/
  | unexpectedTokenDetailed (token message : String)
  /-- A number literal without a value. -/
  | unreadableNumber (token : String)
  /-- A second variable of one name in one scope. -/
  | variableRedeclared (name : String)
  /-- A second function of one name, or one with the name of the builtin. -/
  | functionRedeclared (name : String)
  /-- A name that nothing has. -/
  | unknownIdentifier (name : String)
  /-- The function to start with does not exist. -/
  | functionNotDefined (name : String)
  /-- A function's name where a value is required. -/
  | functionUsedAsValue (name : String)
  /-- A call of something that is not a function. -/
  | notCallable (callee type : String)
  /-- A call with too many arguments. -/
  | unexpectedArguments (expected received : Nat)
  /-- A call with too few arguments. -/
  | missingArguments (expected received : Nat)
  /-- An argument of the wrong type. -/
  | argumentMismatch (expected received : String)
  /-- A value of the wrong type. -/
  | typeMismatch (expected received : String)
  /-- An operator that its operands do not have. -/
  | invalidOperand (operator operand : String)
  /-- A variable of a type that has no values. -/
  | invalidVariableType (name type : String)
  /-- A variable with neither a type nor a value to deduce it from. -/
  | initializerRequired (name : String)
  /-- An assignment to a variable that was not declared mutable. -/
  | assignmentToImmutable (name : String)
  /-- An integer division by zero. -/
  | divisionByZero
  /-- A function with a result that came to its end without one. -/
  | missingReturn (name : String)
  /-- A variable that is used before it has a value. -/
  | unboundVariable (name : String)
  /-- A fault that checking is meant to rule out. -/
  | inconsistency (message : String)
deriving DecidableEq, Repr

namespace Cause

/-- When a cause is found. -/
def stage : Cause → Stage
  | divisionByZero | missingReturn _ | unboundVariable _ | inconsistency _ => .runtime
  | _ => .compile

/-- The name under which a cause is reported. -/
def name : Cause → String
  | unrecognisedToken _ => "UnrecognisedToken"
  | unterminatedString => "UnterminatedString"
  | unterminatedComment => "UnterminatedComment"
  | unexpectedToken _ => "UnexpectedToken"
  | unexpectedTokenDetailed _ _ => "UnexpectedTokenDetailed"
  | unreadableNumber _ => "NumberParseError"
  | variableRedeclared _ => "VariableAlreadyDeclared"
  | functionRedeclared _ => "FunctionAlreadyDeclared"
  | unknownIdentifier _ => "UnknownIdentifier"
  | functionNotDefined _ => "FunctionNotDefined"
  | functionUsedAsValue _ => "FunctionUsedAsValue"
  | notCallable _ _ => "NotCallable"
  | unexpectedArguments _ _ => "UnexpectedArguments"
  | missingArguments _ _ => "MissingArguments"
  | argumentMismatch _ _ => "ArgumentTypeMatchError"
  | typeMismatch _ _ => "TypeMatchError"
  | invalidOperand _ _ => "InvalidOperand"
  | invalidVariableType _ _ => "InvalidVariableType"
  | initializerRequired _ => "ExpectedExplicitValue"
  | assignmentToImmutable _ => "AssignmentToImmutable"
  | divisionByZero => "DivisionByZero"
  | missingReturn _ => "MissingReturn"
  | unboundVariable _ => "UnboundVariable"
  | inconsistency _ => "InternalConsistency"

/-- What went wrong, in a sentence.  Names taken from the source are quoted. -/
def message : Cause → String
  | unrecognisedToken token => s!"unrecognised token: {Text.quote token}"
  | unterminatedString => "unterminated string literal"
  | unterminatedComment => "unterminated block comment"
  | unexpectedToken token => s!"unexpected token: {Text.quote token}"
  | unexpectedTokenDetailed token message =>
    s!"unexpected token ({message}): {Text.quote token}"
  | unreadableNumber token => s!"error parsing number: {Text.quote token}"
  | variableRedeclared name => s!"variable {Text.quote name} already declared"
  | functionRedeclared name => s!"function {Text.quote name} already declared"
  | unknownIdentifier name => s!"unknown identifier {Text.quote name}"
  | functionNotDefined name => s!"Function '{name}' is not defined"
  | functionUsedAsValue name => s!"function {Text.quote name} used as a value"
  | notCallable callee type => s!"{Text.quote callee} of type {type} is not callable"
  | unexpectedArguments expected received =>
    s!"unexpected arguments: expected {expected}, received {received}"
  | missingArguments expected received =>
    s!"missing arguments: expected {expected}, received {received}"
  | argumentMismatch expected received =>
    s!"argument types do not match: expected {expected}, received {received}"
  | typeMismatch expected received =>
    s!"types do not match: expected {expected}, received {received}"
  | invalidOperand operator operand => s!"operator `{operator}` cannot be applied to {operand}"
  | invalidVariableType name type => s!"variable {Text.quote name} cannot have type {type}"
  | initializerRequired name =>
    s!"variable {Text.quote name} needs an initializer to deduce its type"
  | assignmentToImmutable name => s!"cannot assign to immutable variable {Text.quote name}"
  | divisionByZero => "division by zero"
  | missingReturn name => s!"function {Text.quote name} finished without returning a value"
  | unboundVariable name => s!"variable {Text.quote name} is not bound"
  | inconsistency message => s!"internal consistency fault: {message}"

/-- A hint on how to mend it, for the causes that have one. -/
def tip : Cause → Option String
  | unterminatedString => some "String literals must be closed with `\"` on the same line"
  | unterminatedComment => some "Every `/*` needs a matching `*/`"
  | unexpectedToken token => some s!"Unexpected token: `{token}`, did you miss a semicolon?"
  | unexpectedTokenDetailed token message => some s!"Unexpected token: `{token}`, {message}"
  | unreadableNumber token =>
    some s!"Invalid number: `{token}`, is it above the integer limit?"
  | variableRedeclared name => some s!"Variable `{name}` already declared in this scope"
  | functionRedeclared name => some s!"Function `{name}` already declared"
  | functionUsedAsValue name => some s!"Functions can only be called, try `{name}(...)`"
  | unexpectedArguments expected received | missingArguments expected received =>
    some s!"Expected {expected} arguments, received {received}"
  | argumentMismatch expected received =>
    some s!"Expected argument type `{expected}`, received `{received}`"
  | typeMismatch expected received => some s!"Expected type `{expected}`, received `{received}`"
  | initializerRequired _ => some "Expected explicit value when no type is given"
  | assignmentToImmutable name => some s!"Declare `{name}` as `mutable` to allow assignment"
  | missingReturn _ => some "Every path through a non-void function must reach a `return`"
  | inconsistency _ => some "This is a bug in the type checker, please report it"
  | unrecognisedToken _ | unknownIdentifier _ | functionNotDefined _ | notCallable _ _
  | invalidOperand _ _ | invalidVariableType _ _ | divisionByZero | unboundVariable _ => none

end Cause

/-- A cause and the stretch of source it belongs to. -/
structure Error where
  /-- What went wrong. -/
  cause : Cause
  /-- Where it went wrong. -/
  span : Span
deriving DecidableEq, Repr

namespace Error

/-- When the error is found. -/
def stage (e : Error) : Stage := e.cause.stage

end Error

/-- Why a computation on fuel ended without a result. -/
inductive Stop where
  /-- It met an error. -/
  | fault (error : Error)
  /-- It would have needed more fuel. -/
  | exhausted
deriving DecidableEq, Repr

/-- The state that a computation leaves behind, however it ends. -/
def final {σ α : Type} : EStateM.Result Stop σ α → σ
  | .ok _ s | .error _ s => s

end TypedImp
