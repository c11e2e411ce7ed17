import TypedImp.Syntax.Stmt

/-!
# Functions and programs

* `Parameter`, `FunDecl`, `FunDecl.signature`: functions and their signatures.
* `Program`, `Program.function?`: programs, and how to find a function by its name.
-/

namespace TypedImp

/-- A parameter of a function. -/
structure Parameter where
  name : String
  type : BindingTy
  span : Span
deriving Repr

/-- The definition of a function. -/
structure FunDecl where
  name : String
  parameters : List Parameter
  result : Ty
  body : Block Stmt
  span : Span

namespace FunDecl

/-- Types of the parameters and of the result. -/
def signature (f : FunDecl) : Signature :=
  ⟨f.parameters.map fun parameter => parameter.type.ty, f.result⟩

end FunDecl

/-- A whole program: variables and functions, each in the order of the source. -/
structure Program where
  globals : List VarDecl
  functions : List FunDecl

namespace Program

/-- The program without definitions. -/
def empty : Program := ⟨[], []⟩

/-- The first function of a name. -/
def function? (p : Program) (name : String) : Option FunDecl :=
  p.functions.find? fun f => f.name = name

end Program

end TypedImp
