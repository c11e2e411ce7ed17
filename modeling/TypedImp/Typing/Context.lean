import TypedImp.Scope
import TypedImp.Syntax.Program

/-!
# What names mean while checking

A name is looked up among the variables first, then among the functions of the program, and last it
may be that of the builtin.

* `Signatures`: the functions of a program by name.
* `Context`, `Context.resolve?`: all that the meaning of a name depends on.
* `Builtin.print`: the builtin function.
-/

namespace TypedImp

namespace Builtin

/-- The name of the builtin function. -/
def print : String := "print"

/-- The signature shown for the builtin.  Calls of it are not held against it: it takes any number
of arguments of any types. -/
def printSignature : Signature := ⟨[.unspecified], .void⟩

end Builtin

/-- The signatures of functions by name. -/
abbrev Signatures := List (String × Signature)

namespace Signatures

/-- The signature of a function. -/
def get? (s : Signatures) (name : String) : Option Signature :=
  (s.find? fun entry => entry.1 = name).map fun entry => entry.2

/-- Adds the signature of a function, in place of any other of its name. -/
def insert (s : Signatures) (name : String) (signature : Signature) : Signatures :=
  (name, signature) :: s.filter fun entry => entry.1 ≠ name

end Signatures

/-- All that the meaning of a name depends on. -/
structure Context where
  signatures : Signatures
  scopes : ScopeTree
  /-- The number of the current scope. -/
  scope : Nat

/-- What a name may refer to. -/
inductive Referent where
  | value (type : BindingTy)
  | function (signature : Signature)
  | builtin

namespace Context

/-- What a name refers to. -/
def resolve? (Γ : Context) (name : String) : Option Referent :=
  match Γ.scopes.lookup? Γ.scope name with
  | some binding => some (.value binding.type)
  | none =>
    match Γ.signatures.get? name with
    | some signature => some (.function signature)
    | none => if name = Builtin.print then some .builtin else none

end Context

end TypedImp
