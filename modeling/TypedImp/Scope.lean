import TypedImp.Error
import TypedImp.Ty

/-!
# Static scopes

Checking builds a tree of scopes.  Scopes are numbered from one in the order in which they are
made; the first is that of the globals, and zero means no scope.  A scope knows its parent by its
number, so numbers stay valid while the tree grows.  A name means the nearest binding on the way
from a scope to the root.

* `ScopeTree.initial`, `ScopeTree.add`, `ScopeTree.declare`: how trees are built.
* `ScopeTree.chain`: a scope, its parent, and so on.
* `ScopeTree.lookup?`, `ScopeTree.result?`: the first hit along the chain.
-/

namespace TypedImp

/-- A variable as it is declared in a scope. -/
structure Binding where
  name : String
  type : BindingTy
deriving DecidableEq, Repr

/-- A scope: its parent, what is declared directly in it, and the result that a function's body has
to give back. -/
structure Scope where
  /-- The number of the parent, zero for none. -/
  parent : Nat
  /-- Declarations in their order. -/
  bindings : List Binding
  /-- Given for the bodies of functions only. -/
  result : Option Ty
deriving DecidableEq, Repr

namespace Scope

/-- A scope without declarations. -/
def fresh (parent : Nat) (result : Option Ty) : Scope := ⟨parent, [], result⟩

/-- The declaration of a name directly in the scope. -/
def binding? (s : Scope) (name : String) : Option Binding :=
  s.bindings.find? fun b => b.name = name

end Scope

/-- The scopes of a program; the scope with number `n + 1` stands at place `n`. -/
structure ScopeTree where
  scopes : Array Scope
deriving DecidableEq, Repr

namespace ScopeTree

/-- The number of the scope of the globals. -/
def globalId : Nat := 1

/-- The tree with the scope of the globals only. -/
def initial : ScopeTree := ⟨#[.fresh 0 none]⟩

/-- Number of scopes. -/
def size (t : ScopeTree) : Nat := t.scopes.size

/-- The scope with the given number. -/
def get? (t : ScopeTree) : Nat → Option Scope
  | 0 => none
  | n + 1 => t.scopes[n]?

/-- Adds a scope; its number is the new size of the tree. -/
def add (t : ScopeTree) (parent : Nat) (result : Option Ty) : ScopeTree :=
  ⟨t.scopes.push (.fresh parent result)⟩

/-- The first `fuel` scopes on the way from a scope to the root. -/
def chainFrom (t : ScopeTree) : (fuel : Nat) → (id : Nat) → List Scope
  | 0, _ => []
  | fuel + 1, id =>
    match t.get? id with
    | none => []
    | some scope => scope :: chainFrom t fuel scope.parent

/-- The scopes on the way from a scope to the root.  No scope occurs twice on it, so there are at
most as many as in the tree. -/
def chain (t : ScopeTree) (id : Nat) : List Scope := t.chainFrom t.size id

/-- The nearest declaration of a name. -/
def lookup? (t : ScopeTree) (id : Nat) (name : String) : Option Binding :=
  (t.chain id).findSome? fun scope => scope.binding? name

/-- The result required by the nearest function around a scope. -/
def result? (t : ScopeTree) (id : Nat) : Option Ty :=
  (t.chain id).findSome? fun scope => scope.result

/-- Adds a declaration to a scope.  A scope has one declaration of a name at most; declarations in
scopes around it do not matter. -/
def declare (t : ScopeTree) (id : Nat) (binding : Binding) (span : Span) :
    Except Error ScopeTree :=
  match t.get? id with
  | none =>
    .error ⟨.inconsistency s!"declaration of {Text.quote binding.name} outside of any scope", span⟩
  | some scope =>
    match scope.binding? binding.name with
    | some _ => .error ⟨.variableRedeclared binding.name, span⟩
    | none =>
      .ok ⟨t.scopes.setIfInBounds (id - 1)
        { scope with bindings := scope.bindings ++ [binding] }⟩

end ScopeTree

end TypedImp
