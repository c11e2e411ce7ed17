import TypedImp.Number.Binary32
import TypedImp.Syntax.Program
import TypedImp.Token.Pattern

/-!
# Programs that can be written down

Not every syntax tree comes from a text: a name may be a reserved word, a literal may carry a text
that does not read as its value, a call that is used as a statement may begin with a parenthesis.
`Program.WellFormed` lists what a tree has to satisfy to have a text.

Two trees that differ only in where they were read are the same after `erase`.

* `isName`, `isDigits`, `Literal.Written`: names and number literals.
* `Ty.isWritten`: types.
* `Expr.WellFormed`, `Stmt.WellFormed`, `Program.WellFormed`: trees.
* `Expr.erase`, `Stmt.erase`, `Program.erase`: trees without places.
-/

namespace TypedImp

/-! ## Names and literals -/

/-- Whether a text is a word. -/
def isWord : List Char → Bool
  | c :: cs => isWordStart c && cs.all isWordPart
  | [] => false

/-- Whether a text is a word that is not reserved. -/
def isName (name : String) : Bool := isWord name.toList && TokenKind.ofWord name = .identifier

/-- Whether a text is a run of digits. -/
def isDigits (cs : List Char) : Bool := !cs.isEmpty && cs.all Char.isDigit

/-- The text that a number literal may carry: for an integer its digits, for the least integer a
minus and digits that would be too great without it, for a floating-point number digits with a point
among them. -/
def Literal.Written : Literal → List Char → Prop
  | .int32 value, text =>
    isDigits text = true ∧ digitsValue text ≤ 2147483647 ∧ value.toInt = digitsValue text ∨
      value = Int32.minValue ∧ ∃ digits, text = '-' :: digits ∧ isDigits digits = true ∧
        digitsValue digits = 2147483648
  | .float32 value, text =>
    ∃ whole fraction, text = whole ++ '.' :: fraction ∧ isDigits whole = true ∧
      isDigits fraction = true ∧ readFloat32? text = some value

/-! ## Types -/

namespace Ty

/-- Whether a type can be written: a name, or a pointer to a type that can be.  In place of the name
there may be the placeholder, where it is allowed. -/
def isWritten (placeholder : Bool) : Ty → Bool
  | void | bool | int32 | float32 => true
  | deduced => placeholder
  | named name => isName name && ofName name = named name
  | pointer target => target.isWritten placeholder
  | unspecified | function .. => false

end Ty

/-! ## Trees -/

namespace Expr

/-- Whether an expression is a name that is called any number of times. -/
def isHeaded : Expr → Bool
  | name .. => true
  | call callee .. => callee.isHeaded
  | _ => false

/-- Expressions that can be written. -/
inductive WellFormed : Expr → Prop
  | number {value : Literal} {text : String} {span : Span} (written : value.Written text.toList) :
    WellFormed (.number value text span)
  | string {value : String} {span : Span} (inside : ∀ c ∈ value.toList, c ≠ '"' ∧ c ≠ '\n') :
    WellFormed (.string value span)
  | bool {value : Bool} {span : Span} : WellFormed (.bool value span)
  | name {n : String} {span : Span} (free : isName n = true) : WellFormed (.name n span)
  | unary {op : UnaryOp} {operand : Expr} {span : Span} (inner : operand.WellFormed) :
    WellFormed (.unary op operand span)
  | binary {op : BinaryOp} {left right : Expr} {span : Span} (first : left.WellFormed)
    (second : right.WellFormed) : WellFormed (.binary op left right span)
  | call {callee : Expr} {arguments : List Expr} {span : Span} (called : callee.WellFormed)
    (passed : ∀ argument ∈ arguments, argument.WellFormed) :
    WellFormed (.call callee arguments span)

theorem WellFormed.forall_mem_some {e : Expr} (h : e.WellFormed) :
    ∀ e' ∈ some e, e'.WellFormed := by
  rintro e' ⟨⟩
  exact h

end Expr

/-- Definitions of variables that can be written. -/
structure VarDecl.WellFormed (decl : VarDecl) : Prop where
  free : isName decl.name = true
  typed : decl.type.ty.isWritten true = true
  initial : ∀ value ∈ decl.initializer, value.WellFormed

/-- Statements that can be written. -/
inductive Stmt.WellFormed : Stmt → Prop
  | call {callee : Expr} {arguments : List Expr} {callSpan span : Span}
    (called : (Expr.call callee arguments callSpan).WellFormed)
    (headed : callee.isHeaded = true) : WellFormed (.call callee arguments callSpan span)
  | define {decl : VarDecl} (defined : decl.WellFormed) : WellFormed (.define decl)
  | assign {name : String} {value : Expr} {span : Span} (free : isName name = true)
    (assigned : value.WellFormed) : WellFormed (.assign name value span)
  | ret {value : Option Expr} {span : Span} (returned : ∀ e ∈ value, e.WellFormed) :
    WellFormed (.ret value span)
  | ifThenElse {condition : Expr} {thenBody elseBody : List Stmt} {thenSpan elseSpan span : Span}
    (tested : condition.WellFormed) (taken : ∀ s ∈ thenBody, s.WellFormed)
    (otherwise : ∀ s ∈ elseBody, s.WellFormed) :
    WellFormed (.ifThenElse condition ⟨thenBody, 0, thenSpan⟩ ⟨elseBody, 0, elseSpan⟩ span)
  | whileDo {condition : Expr} {body : List Stmt} {bodySpan span : Span}
    (tested : condition.WellFormed) (repeated : ∀ s ∈ body, s.WellFormed) :
    WellFormed (.whileDo condition ⟨body, 0, bodySpan⟩ span)

/-- Functions that can be written. -/
structure FunDecl.WellFormed (f : FunDecl) : Prop where
  free : isName f.name = true
  parameters : ∀ parameter ∈ f.parameters,
    isName parameter.name = true ∧ parameter.type.ty.isWritten false = true
  result : f.result.isWritten false = true
  body : ∀ s ∈ f.body.body, s.WellFormed
  scope : f.body.scope = 0

/-- Programs that can be written. -/
structure Program.WellFormed (p : Program) : Prop where
  globals : ∀ decl ∈ p.globals, decl.WellFormed
  functions : ∀ f ∈ p.functions, f.WellFormed

/-! ## Trees without places -/

namespace Expr

mutual

/-- The expression, read nowhere. -/
def erase : Expr → Expr
  | number value text _ => .number value text .unlocated
  | string value _ => .string value .unlocated
  | bool value _ => .bool value .unlocated
  | name n _ => .name n .unlocated
  | unary op operand _ => .unary op operand.erase .unlocated
  | binary op left right _ => .binary op left.erase right.erase .unlocated
  | call callee arguments _ => .call callee.erase (eraseAll arguments) .unlocated

def eraseAll : List Expr → List Expr
  | [] => []
  | e :: es => e.erase :: eraseAll es

end

theorem eraseAll_eq_map (es : List Expr) : eraseAll es = es.map erase := by
  induction es with
  | nil => rfl
  | cons e es ih => rw [eraseAll, ih, List.map_cons]

end Expr

/-- The definition of a variable, read nowhere. -/
def VarDecl.erase (decl : VarDecl) : VarDecl :=
  ⟨decl.name, decl.type, decl.initializer.map Expr.erase, .unlocated⟩

mutual

/-- The statement, read nowhere. -/
def Stmt.erase : Stmt → Stmt
  | .call callee arguments _ _ =>
    .call callee.erase (Expr.eraseAll arguments) .unlocated .unlocated
  | .define decl => .define decl.erase
  | .assign name value _ => .assign name value.erase .unlocated
  | .ret value _ => .ret (value.map Expr.erase) .unlocated
  | .ifThenElse condition thenBlock elseBlock _ =>
    .ifThenElse condition.erase thenBlock.erase elseBlock.erase .unlocated
  | .whileDo condition body _ => .whileDo condition.erase body.erase .unlocated

def Block.erase : Block Stmt → Block Stmt
  | ⟨body, scope, _⟩ => ⟨eraseBody body, scope, .unlocated⟩

def eraseBody : List Stmt → List Stmt
  | [] => []
  | s :: ss => s.erase :: eraseBody ss

end

/-- The parameter, read nowhere. -/
def Parameter.erase (parameter : Parameter) : Parameter :=
  ⟨parameter.name, parameter.type, .unlocated⟩

/-- The function, read nowhere. -/
def FunDecl.erase (f : FunDecl) : FunDecl :=
  ⟨f.name, f.parameters.map Parameter.erase, f.result, f.body.erase, .unlocated⟩

/-- The program, read nowhere. -/
def Program.erase (p : Program) : Program :=
  ⟨p.globals.map VarDecl.erase, p.functions.map FunDecl.erase⟩

end TypedImp
