import TypedImp.Error
import TypedImp.Syntax.Program

/-!
# The places of a syntax tree

Every error of checking and of running is put at a place that some part of the program was read
from.  So it is enough to know something of all places of a program to know it of all errors.  Only
the places of blocks are left out: nothing is ever reported there.

* `Expr.AllSpans`, `Stmt.AllSpans`, `Program.AllSpans`: all spans of a tree have a property.
* `Program.allSpans_of_forall`: a property of all spans whatever.
* `Error.At`: errors of a stage at a span with a property.
-/

namespace TypedImp

/-- All spans of an expression have a property. -/
inductive Expr.AllSpans (P : Span → Prop) : Expr → Prop
  | number {value : Literal} {text : String} {span : Span} (here : P span) :
    AllSpans P (.number value text span)
  | string {value : String} {span : Span} (here : P span) : AllSpans P (.string value span)
  | bool {value : Bool} {span : Span} (here : P span) : AllSpans P (.bool value span)
  | name {n : String} {span : Span} (here : P span) : AllSpans P (.name n span)
  | unary {op : UnaryOp} {operand : Expr} {span : Span} (inner : operand.AllSpans P)
    (here : P span) : AllSpans P (.unary op operand span)
  | binary {op : BinaryOp} {left right : Expr} {span : Span} (first : left.AllSpans P)
    (second : right.AllSpans P) (here : P span) : AllSpans P (.binary op left right span)
  | call {callee : Expr} {arguments : List Expr} {span : Span} (called : callee.AllSpans P)
    (passed : ∀ argument ∈ arguments, argument.AllSpans P) (here : P span) :
    AllSpans P (.call callee arguments span)

/-- All spans of the definition of a variable have a property. -/
structure VarDecl.AllSpans (P : Span → Prop) (decl : VarDecl) : Prop where
  initial : ∀ value ∈ decl.initializer, value.AllSpans P
  here : P decl.span

/-- All spans of a statement have a property, but for those of blocks. -/
inductive Stmt.AllSpans (P : Span → Prop) : Stmt → Prop
  | call {callee : Expr} {arguments : List Expr} {callSpan span : Span}
    (called : (Expr.call callee arguments callSpan).AllSpans P) (here : P span) :
    AllSpans P (.call callee arguments callSpan span)
  | define {decl : VarDecl} (defined : decl.AllSpans P) : AllSpans P (.define decl)
  | assign {name : String} {value : Expr} {span : Span} (assigned : value.AllSpans P)
    (here : P span) : AllSpans P (.assign name value span)
  | ret {value : Option Expr} {span : Span} (returned : ∀ e ∈ value, e.AllSpans P)
    (here : P span) : AllSpans P (.ret value span)
  | ifThenElse {condition : Expr} {thenBlock elseBlock : Block Stmt} {span : Span}
    (tested : condition.AllSpans P) (taken : ∀ s ∈ thenBlock.body, s.AllSpans P)
    (otherwise : ∀ s ∈ elseBlock.body, s.AllSpans P) (here : P span) :
    AllSpans P (.ifThenElse condition thenBlock elseBlock span)
  | whileDo {condition : Expr} {body : Block Stmt} {span : Span}
    (tested : condition.AllSpans P) (repeated : ∀ s ∈ body.body, s.AllSpans P) (here : P span) :
    AllSpans P (.whileDo condition body span)

/-- All spans of a function have a property, but for those of blocks. -/
structure FunDecl.AllSpans (P : Span → Prop) (f : FunDecl) : Prop where
  parameters : ∀ parameter ∈ f.parameters, P parameter.span
  body : ∀ s ∈ f.body.body, s.AllSpans P
  here : P f.span

/-- All spans of a program have a property, but for those of blocks. -/
structure Program.AllSpans (P : Span → Prop) (p : Program) : Prop where
  globals : ∀ decl ∈ p.globals, decl.AllSpans P
  functions : ∀ f ∈ p.functions, f.AllSpans P

section

variable {P : Span → Prop}

theorem Expr.AllSpans.span {e : Expr} (h : e.AllSpans P) : P e.span := by
  cases h <;> assumption

/-- A name that is called stands at a span of the expression called. -/
theorem Expr.AllSpans.named {e : Expr} (h : e.AllSpans P) {name : String} {span : Span}
    (hnamed : e.named? = some (name, span)) : P span := by
  cases h with
  | name here => cases hnamed; exact here
  | _ => cases hnamed

theorem Program.AllSpans.function? {p : Program} (h : p.AllSpans P) {name : String} {f : FunDecl}
    (hf : p.function? name = some f) : f.AllSpans P :=
  h.functions f (List.mem_of_find?_eq_some hf)

/-! ## A property of all spans whatever -/

mutual

theorem Expr.allSpans_of_forall (all : ∀ span, P span) : ∀ e : Expr, e.AllSpans P
  | .number _ _ _ => .number (all _)
  | .string _ _ => .string (all _)
  | .bool _ _ => .bool (all _)
  | .name _ _ => .name (all _)
  | .unary _ operand _ => .unary (allSpans_of_forall all operand) (all _)
  | .binary _ left right _ =>
    .binary (allSpans_of_forall all left) (allSpans_of_forall all right) (all _)
  | .call callee arguments _ =>
    .call (allSpans_of_forall all callee) (forall_allSpans_of_forall all arguments) (all _)

theorem Expr.forall_allSpans_of_forall (all : ∀ span, P span) :
    ∀ es : List Expr, ∀ e ∈ es, e.AllSpans P
  | [] => List.forall_mem_nil _
  | e :: es =>
    List.forall_mem_cons.mpr ⟨allSpans_of_forall all e, forall_allSpans_of_forall all es⟩

end

theorem VarDecl.allSpans_of_forall (all : ∀ span, P span) (decl : VarDecl) : decl.AllSpans P :=
  ⟨fun value _ => Expr.allSpans_of_forall all value, all decl.span⟩

mutual

theorem Stmt.allSpans_of_forall (all : ∀ span, P span) : ∀ s : Stmt, s.AllSpans P
  | .call _ _ _ _ => .call (Expr.allSpans_of_forall all _) (all _)
  | .define decl => .define (VarDecl.allSpans_of_forall all decl)
  | .assign _ value _ => .assign (Expr.allSpans_of_forall all value) (all _)
  | .ret _ _ => .ret (fun e _ => Expr.allSpans_of_forall all e) (all _)
  | .ifThenElse condition ⟨thenBody, _, _⟩ ⟨elseBody, _, _⟩ _ =>
    .ifThenElse (Expr.allSpans_of_forall all condition) (forall_allSpans_of_forall all thenBody)
      (forall_allSpans_of_forall all elseBody) (all _)
  | .whileDo condition ⟨body, _, _⟩ _ =>
    .whileDo (Expr.allSpans_of_forall all condition) (forall_allSpans_of_forall all body) (all _)

theorem Stmt.forall_allSpans_of_forall (all : ∀ span, P span) :
    ∀ ss : List Stmt, ∀ s ∈ ss, s.AllSpans P
  | [] => List.forall_mem_nil _
  | s :: ss =>
    List.forall_mem_cons.mpr ⟨allSpans_of_forall all s, forall_allSpans_of_forall all ss⟩

end

theorem Program.allSpans_of_forall (all : ∀ span, P span) (p : Program) : p.AllSpans P where
  globals := fun decl _ => VarDecl.allSpans_of_forall all decl
  functions := fun f _ => ⟨fun parameter _ => all parameter.span,
    Stmt.forall_allSpans_of_forall all f.body.body, all f.span⟩

end

/-! ## Errors -/

/-- An error of a stage at a span with a property.  That the function to start with does not exist
is the one error that has no place in the program. -/
structure Error.At (stage : Stage) (P : Span → Prop) (e : Error) : Prop where
  stage : e.stage = stage
  span : P e.span
  inside : ∀ name, e.cause ≠ .functionNotDefined name

theorem Error.At.runtime {P : Span → Prop} {e : Error} (stage : e.stage = .runtime)
    (span : P e.span) : e.At .runtime P := by
  refine ⟨stage, span, fun name hcause => ?_⟩
  rw [Error.stage, hcause] at stage
  cases stage

end TypedImp
