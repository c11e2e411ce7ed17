import TypedImp.CommandLine

/-!
# The program

Reads the file that the command line names, carries out the command and writes what comes of it.
-/

open TypedImp

/-- Fuel for a run, far more than a run can use up. -/
def ampleFuel : Nat := 4611686018427387904

/-- Why reading a file failed, by what the system says. -/
def failureOf : IO.Error → ReadFailure
  | .noFileOrDirectory .. => .notFound
  -- The first code is that of reading a directory, all others mean a file on the way.
  | .inappropriateType _ code _ => if code = 21 then .isDirectory else .notDirectory
  | .invalidArgument .. => .nameTooLong
  | .permissionDenied .. => .other "Permission denied (os error 13)"
  | error => .other (toString error)

/-- The text of a file. -/
def readSource (path : String) : IO (Except ReadFailure String) := do
  try
    match String.fromUTF8? (← IO.FS.readBinFile path) with
    | some text => return .ok text
    | none => return .error .notText
  catch error => return .error (failureOf error)

/-- Carries out the command line. -/
def main (arguments : List String) : IO UInt32 := do
  let outcome ←
    match Command.ofArguments arguments with
    | .error refusal => pure refusal.outcome
    | .ok command => pure (command.execute ampleFuel (← readSource command.file))
  IO.print outcome.stdout
  IO.eprint outcome.stderr
  return outcome.exitCode.toUInt32
