import Mathlib.Data.List.Forall2
import Mathlib.Data.List.Nodup
import TypedImp.Typing.Programs

/-!
# Typing rules

Checking computes: it walks a program, grows a tree of scopes and stops at errors.  The rules here
only say which programs are well typed, and they know nothing of trees and errors.  A rule reads
the declarations that can be seen where it applies and nothing else, so the same rules describe the
frames of a running program.

## Why the latest declaration comes first

A scope lists its declarations in the order of the source, a frame lists its variables the latest
first.  The rules side with the frames.  Within one scope no name is declared twice, so the order
does not change what a name means; that is shown where checking is compared with the rules.

* `Visible`, `Visible.lookup?`: the declarations that can be seen, and which of them a name means.
* `HasType`: the type of an expression.
* `VarTyped`, `StmtTyped`, `BodyTyped`: definitions, statements, and lists of statements.
* `FunTyped`, `GlobalsTyped`, `ProgramTyped`: functions, globals and whole programs.
-/

namespace TypedImp

/-- The declarations that can be seen: scope by scope from the nearest outwards, and in each scope
the latest first. -/
abbrev Visible := List (List Binding)

namespace Visible

/-- The declaration that a name means. -/
def lookup? (env : Visible) (name : String) : Option Binding :=
  env.findSome? fun scope => scope.find? fun b => b.name = name

end Visible

namespace VarDecl

/-- What the definition of a variable declares. -/
def binding (decl : VarDecl) : Binding := ⟨decl.name, decl.type⟩

end VarDecl

namespace Parameter

/-- What a parameter declares. -/
def binding (parameter : Parameter) : Binding := ⟨parameter.name, parameter.type⟩

end Parameter

namespace FunDecl

/-- The scope of the parameters of a function. -/
def parameterScope (f : FunDecl) : List Binding := (f.parameters.map Parameter.binding).reverse

end FunDecl

namespace Program

/-- The scope of the globals of a program. -/
def globalScope (p : Program) : List Binding := (p.globals.map VarDecl.binding).reverse

end Program

/-! ## Expressions -/

/-- The type of an expression.  A name is that of a variable before it is that of a function, and
that of a function before it is that of the builtin; only a variable is a value. -/
inductive HasType (signatures : Signatures) (env : Visible) : Expr → Ty → Prop
  | number (value : Literal) (text : String) (span : Span) :
    HasType signatures env (.number value text span) value.ty
  | string (value : String) (span : Span) : HasType signatures env (.string value span) .string
  | bool (value : Bool) (span : Span) : HasType signatures env (.bool value span) .bool
  | name {name : String} {b : Binding} (span : Span) (seen : env.lookup? name = some b) :
    HasType signatures env (.name name span) b.type.ty
  | unary {op : UnaryOp} {operand : Expr} {t : Ty} (span : Span)
    (operand_type : HasType signatures env operand t) (accepts : op.accepts t = true) :
    HasType signatures env (.unary op operand span) t
  | binary {op : BinaryOp} {left right : Expr} {t : Ty} (span : Span)
    (left_type : HasType signatures env left t) (right_type : HasType signatures env right t)
    (accepts : op.accepts t = true) :
    HasType signatures env (.binary op left right span) (op.resultTy t)
  /-- The builtin takes any arguments that have types. -/
  | print {arguments : List Expr} {types : List Ty} (nameSpan span : Span)
    (unseen : env.lookup? Builtin.print = none) (unknown : signatures.get? Builtin.print = none)
    (arguments_type : List.Forall₂ (HasType signatures env) arguments types) :
    HasType signatures env (.call (.name Builtin.print nameSpan) arguments span) .void
  | call {name : String} {signature : Signature} {arguments : List Expr} (nameSpan span : Span)
    (unseen : env.lookup? name = none) (known : signatures.get? name = some signature)
    (arguments_type : List.Forall₂ (HasType signatures env) arguments signature.parameters) :
    HasType signatures env (.call (.name name nameSpan) arguments span) signature.result

/-! ## Statements -/

/-- A variable has a type with values, which is that of its initializer if it has one. -/
structure VarTyped (signatures : Signatures) (env : Visible) (decl : VarDecl) : Prop where
  initializer : ∀ e, decl.initializer = some e → HasType signatures env e decl.type.ty
  hasValues : decl.type.ty.hasValues = true

mutual

/-- A statement is well typed in a function with the given result.  The last place tells what can be
seen behind the statement. -/
inductive StmtTyped (signatures : Signatures) (result : Ty) : Visible → Stmt → Visible → Prop
  | call {env : Visible} {callee : Expr} {arguments : List Expr} {callSpan : Span} {t : Ty}
    (span : Span) (call_type : HasType signatures env (.call callee arguments callSpan) t) :
    StmtTyped signatures result env (.call callee arguments callSpan span) env
  | define {scope : List Binding} {outer : Visible} {decl : VarDecl}
    (typed : VarTyped signatures (scope :: outer) decl) :
    StmtTyped signatures result (scope :: outer) (.define decl) ((decl.binding :: scope) :: outer)
  /-- Only what was declared mutable is assigned to. -/
  | assign {env : Visible} {name : String} {b : Binding} {value : Expr} (span : Span)
    (seen : env.lookup? name = some b) (isMutable : b.type.isMutable = true)
    (value_type : HasType signatures env value b.type.ty) :
    StmtTyped signatures result env (.assign name value span) env
  | ret {env : Visible} {value : Expr} (span : Span)
    (value_type : HasType signatures env value result) :
    StmtTyped signatures result env (.ret (some value) span) env
  | retVoid {env : Visible} (span : Span) (void : result = .void) :
    StmtTyped signatures result env (.ret none span) env
  | ifThenElse {env thenEnd elseEnd : Visible} {condition : Expr} {thenBlock elseBlock : Block Stmt}
    (span : Span) (condition_type : HasType signatures env condition .bool)
    (then_typed : BodyTyped signatures result ([] :: env) thenBlock.body thenEnd)
    (else_typed : BodyTyped signatures result ([] :: env) elseBlock.body elseEnd) :
    StmtTyped signatures result env (.ifThenElse condition thenBlock elseBlock span) env
  | whileDo {env bodyEnd : Visible} {condition : Expr} {body : Block Stmt} (span : Span)
    (condition_type : HasType signatures env condition .bool)
    (body_typed : BodyTyped signatures result ([] :: env) body.body bodyEnd) :
    StmtTyped signatures result env (.whileDo condition body span) env

/-- Statements one after the other, each seeing what those before it have declared. -/
inductive BodyTyped (signatures : Signatures) (result : Ty) : Visible → List Stmt → Visible → Prop
  | nil (env : Visible) : BodyTyped signatures result env [] env
  | cons {env next last : Visible} {s : Stmt} {ss : List Stmt}
    (head_typed : StmtTyped signatures result env s next)
    (tail_typed : BodyTyped signatures result next ss last) :
    BodyTyped signatures result env (s :: ss) last

end

/-! ## Programs -/

/-- The body of a function sees the parameters and, around them, all globals. -/
def FunTyped (signatures : Signatures) (globals : List Binding) (f : FunDecl) : Prop :=
  ∃ last, BodyTyped signatures f.result [f.parameterScope, globals] f.body.body last

/-- The initializer of a global sees the globals before it. -/
inductive GlobalsTyped (signatures : Signatures) : List Binding → List VarDecl → Prop
  | nil (before : List Binding) : GlobalsTyped signatures before []
  | cons {before : List Binding} {decl : VarDecl} {decls : List VarDecl}
    (head_typed : VarTyped signatures [before] decl)
    (tail_typed : GlobalsTyped signatures (decl.binding :: before) decls) :
    GlobalsTyped signatures before (decl :: decls)

/-- A program is well typed with the given signatures. -/
structure ProgramTyped (signatures : Signatures) (p : Program) : Prop where
  globals : GlobalsTyped signatures [] p.globals
  /-- No two globals share a name. -/
  distinct : (p.globalScope.map Binding.name).Nodup
  /-- A signature is that of a function of the program, and never that of the builtin. -/
  known : ∀ name signature, signatures.get? name = some signature →
    name ≠ Builtin.print ∧ ∃ f, p.function? name = some f ∧ f.signature = signature
  functions : ∀ f ∈ p.functions, FunTyped signatures p.globalScope f

end TypedImp
