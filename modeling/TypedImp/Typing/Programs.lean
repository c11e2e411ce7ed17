import TypedImp.Typing.Statements

/-!
# Checking programs

First the names of the functions are collected, so that bodies may call functions further down.
Then the globals are checked in order and then the functions, each on its own: an error in one of
them ends only the checking of that one.

* `Checked`: a program that passed, with its tree of scopes.
* `collectSignatures`: the functions by name, and the names that are taken.
* `collect`: a check of each item of a list, errors apart from results.
* `checkProgram`: the whole of it.
-/

namespace TypedImp

/-- A program that passed all checks, with the scopes of its blocks. -/
structure Checked where
  program : Program
  scopes : ScopeTree

namespace Checked

/-- The first function of a name. -/
def function? (c : Checked) (name : String) : Option FunDecl := c.program.function? name

end Checked

/-- Goes through functions in order.  A name can be used once, and that of the builtin not at all;
further uses are errors and do not change what the name means. -/
def collectSignatures : List FunDecl → Signatures → List Error × Signatures
  | [], signatures => ([], signatures)
  | f :: fs, signatures =>
    if f.name = Builtin.print ∨ (signatures.get? f.name).isSome then
      let (errors, signatures) := collectSignatures fs signatures
      (⟨.functionRedeclared f.name, f.span⟩ :: errors, signatures)
    else collectSignatures fs (signatures.insert f.name f.signature)

/-- The outcome of checking the items of a list one after the other. -/
structure Collected (α : Type) where
  errors : List Error
  /-- The items that passed. -/
  passed : List α
  scopes : ScopeTree

/-- Checks the items of a list one after the other, whatever becomes of those before. -/
def collect {α : Type} (check : α → Check α) : List α → ScopeTree → Collected α
  | [], scopes => ⟨[], [], scopes⟩
  | item :: items, scopes =>
    match check item scopes with
    | .ok item scopes =>
      let rest := collect check items scopes
      { rest with passed := item :: rest.passed }
    | .error error scopes =>
      let rest := collect check items scopes
      { rest with errors := error :: rest.errors }

/-- Checks a whole program; the errors are those of the names, of the globals and of the functions,
in this order. -/
def checkProgram (program : Program) : Except (List Error) Checked :=
  let (nameErrors, signatures) := collectSignatures program.functions []
  let globals := collect (checkVarDecl signatures ScopeTree.globalId) program.globals .initial
  let functions := collect (checkFunction signatures) program.functions globals.scopes
  match nameErrors ++ globals.errors ++ functions.errors with
  | [] => .ok ⟨⟨globals.passed, functions.passed⟩, functions.scopes⟩
  | errors => .error errors

end TypedImp
