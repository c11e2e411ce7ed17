import TypedImp.Execution.Machine

/-!
# Running one function of a program

A run first makes sure that the function exists and that the arguments fit its parameters; if not,
nothing at all happens.  Then the frames are cleared, the globals get their values in the order of
the source, and the function is called.

* `entry`: the function to call, once the arguments are known to fit.
* `initGlobals`: values for the globals.
* `Ending`, `Machine.run`: a whole run, and how it can end.
-/

namespace TypedImp

/-- The error of arguments that do not fit the parameters of a function, if they do not: the
number first, then the types from left to right. -/
def argumentError? (f : FunDecl) (arguments : List Value) : Option Error :=
  let expected := f.parameters.length
  let received := arguments.length
  if expected < received then some ⟨.unexpectedArguments expected received, f.span⟩
  else if received < expected then some ⟨.missingArguments expected received, f.span⟩
  else
    (f.parameters.zip arguments).findSome? fun (parameter, argument) =>
      if argument.ty ≠ parameter.type.ty then
        some ⟨.argumentMismatch parameter.type.ty.spelling argument.ty.spelling, parameter.span⟩
      else none

/-- The function to call, if there is one and the arguments fit it. -/
def entry (program : Program) (name : String) (arguments : List Value) :
    Except Error FunDecl :=
  match program.function? name with
  | none => .error ⟨.functionNotDefined name, .unlocated⟩
  | some f =>
    match argumentError? f arguments with
    | some error => .error error
    | none => .ok f

/-- Gives the globals their values, one after the other. -/
def initGlobals (program : Program) (fuel : Nat) : List VarDecl → Exec Unit
  | [] => return
  | decl :: decls => do
    define (evalExpr program fuel) decl
    initGlobals program fuel decls

/-- How a run can end. -/
inductive Ending where
  | returned (value : Value)
  /-- With an error that a look at the program could have found. -/
  | rejected (error : Error)
  /-- With an error of the running program. -/
  | faulted (error : Error)
  /-- Not at all, with the given fuel. -/
  | exhausted
deriving DecidableEq, Repr

namespace Ending

/-- The end that an error makes, by its stage. -/
def ofError (error : Error) : Ending :=
  match error.stage with
  | .compile => rejected error
  | .runtime => faulted error

/-- The end of a computation. -/
def ofStop : Stop → Ending
  | .fault error => ofError error
  | .exhausted => exhausted

end Ending

namespace Machine

/-- The part of a run that happens in the frames: cleared, filled with the globals, and then used
for the call. -/
def execute (program : Program) (fuel : Nat) (f : FunDecl) (arguments : List Value) :
    Exec Value := do
  Exec.modifyFrames fun _ => .initial
  initGlobals program fuel program.globals
  callFunction program fuel f arguments

/-- Runs the function of a name. -/
def run (program : Program) (fuel : Nat) (name : String) (arguments : List Value) (m : Machine) :
    Ending × Machine :=
  match entry program name arguments with
  | .error error => (.rejected error, m)
  | .ok f =>
    match execute program fuel f arguments m with
    | .ok value m => (.returned value, m)
    | .error stop m => (.ofStop stop, m)

end Machine

end TypedImp
