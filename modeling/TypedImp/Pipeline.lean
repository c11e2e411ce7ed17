import TypedImp.Diagnostic
import TypedImp.Execution.Run
import TypedImp.Grammar.Programs
import TypedImp.Token.Scan
import TypedImp.Typing.Programs

/-!
# From source to result

* `analyze`, `compile`: scanning, parsing and checking a source text.
* `Result`, `runSource`: compiling a source text and running one of its functions.
-/

namespace TypedImp

/-- Scans, parses and checks a source text.  The first of the three that finds errors reports all
that it found. -/
def analyze (source : String) : Except (List Error) Checked :=
  match tokenize source with
  | .error errors => .error errors
  | .ok tokens =>
    match parse tokens with
    | .error (.fault error) => .error [error]
    -- The fuel of parsing suffices for every list of tokens.
    | .error .exhausted => .error []
    | .ok program => checkProgram program

/-- Scans, parses and checks a source text, with the errors looked up in it. -/
def compile (source file : String) : Except Report Checked :=
  match analyze source with
  | .error errors => .error (Report.ofErrors errors file source)
  | .ok checked => .ok checked

/-- What comes of running a source text. -/
inductive Result where
  | value (value : Value)
  | failed (report : Report)
  /-- The run did not end with the given fuel. -/
  | exhausted
deriving DecidableEq, Repr

/-- Compiles a source text and runs one of its functions.  The second answer is what was printed,
also if the run ended with an error. -/
def runSource (fuel : Nat) (source file entry : String) (arguments : List Value) :
    Result × Array String :=
  match compile source file with
  | .error report => (.failed report, #[])
  | .ok checked =>
    let (ending, machine) := Machine.initial.run checked.program fuel entry arguments
    let result :=
      match ending with
      | .returned value => .value value
      | .rejected error | .faulted error => .failed [.ofError error file source]
      | .exhausted => .exhausted
    (result, machine.output)

end TypedImp
