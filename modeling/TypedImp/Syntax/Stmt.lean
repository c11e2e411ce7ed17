import TypedImp.Syntax.Expr
import TypedImp.Ty

/-!
# Statements

* `VarDecl`: the definition of a variable.
* `Block`: statements between braces, with the number of their scope once it is known.
* `Stmt`: statements.
-/

namespace TypedImp

/-- The definition of a variable, global or local. -/
structure VarDecl where
  name : String
  /-- The type as written; checking replaces a deduced one. -/
  type : BindingTy
  initializer : Option Expr
  span : Span
deriving Repr

/-- Statements between braces. -/
structure Block (Stmt : Type) where
  body : List Stmt
  /-- The number of the scope that the block opens; zero before checking, and for nested blocks
  that are empty. -/
  scope : Nat
  span : Span
deriving Repr

namespace Block

/-- A block as it is read, before its scope is known. -/
def unresolved {Stmt : Type} (body : List Stmt) (span : Span) : Block Stmt := ⟨body, 0, span⟩

end Block

/-- Statements. -/
inductive Stmt where
  /-- A call for the sake of its effects; the call has a span of its own. -/
  | call (callee : Expr) (arguments : List Expr) (callSpan : Span) (span : Span)
  | define (decl : VarDecl)
  | assign (name : String) (value : Expr) (span : Span)
  | ret (value : Option Expr) (span : Span)
  /-- A choice; without an `else` its second block is empty. -/
  | ifThenElse (condition : Expr) (thenBlock elseBlock : Block Stmt) (span : Span)
  | whileDo (condition : Expr) (body : Block Stmt) (span : Span)

namespace Stmt

/-- The stretch of source a statement was read from. -/
def span : Stmt → Span
  | call _ _ _ span | assign _ _ span | ret _ span | ifThenElse _ _ _ span | whileDo _ _ span =>
    span
  | define decl => decl.span

end Stmt

end TypedImp
