import TypedImp.Error
import TypedImp.Source.Line

/-!
# Diagnostics

A diagnostic is an error that was looked up in its source: it keeps the line, so that it can be
shown when the source is gone.  The stretch in question is marked under the line by a caret and
tildes.

* `Diagnostic.ofError`: an error with its line.
* `Diagnostic.render`: how it is shown.
* `Report`: diagnostics in order, with `Report.render` and `Report.hasRuntimeErrors`.
-/

namespace TypedImp

/-- An error together with the line of source it belongs to. -/
structure Diagnostic where
  file : String
  /-- Number of the line, zero if the error has no place in the source. -/
  line : Nat
  /-- Characters before the first marked one. -/
  column : Nat
  /-- Number of marked characters. -/
  length : Nat
  /-- The line itself. -/
  snippet : String
  message : String
  stage : Stage
deriving DecidableEq, Repr

namespace Diagnostic

/-- The message of an error, with its tip if it has one. -/
def messageOf (cause : Cause) : String :=
  match cause.tip with
  | none => cause.message
  | some tip => s!"{cause.message} ({tip})"

/-- How many characters of a line to mark: those of the span, but not past the end of its first
line, and at least one. -/
def markLength (snippet : String) (span : Span) : Nat :=
  let remaining := snippet.length - span.start.column
  let length :=
    if span.stop.line = span.start.line then span.stop.column - span.start.column else remaining
  max (min length remaining) 1

/-- Looks an error up in its source. -/
def ofError (error : Error) (file source : String) : Diagnostic :=
  let message := messageOf error.cause
  if error.span.isUnlocated then ⟨file, 0, 0, 0, "", message, error.stage⟩
  else
    let start := error.span.start
    let snippet := (Line.numbered? source start.line).getD ""
    ⟨file, start.line, start.column, markLength snippet error.span, snippet, message, error.stage⟩

/-- Whether the diagnostic has a place in the source. -/
def isLocated (d : Diagnostic) : Bool := d.line ≠ 0

/-- What stands before the caret: blank, with the tabs of the line kept so that it lines up. -/
def padding (d : Diagnostic) : List Char :=
  (d.snippet.toList.take d.column).map fun c => if c = '\t' then '\t' else ' '

/-- The line that marks the stretch. -/
def markLine (d : Diagnostic) : String :=
  "    " ++ String.ofList (d.padding ++ '^' :: List.replicate (d.length - 1) '~')

/-- How a diagnostic is shown. -/
def render (d : Diagnostic) : String :=
  if d.isLocated then
    s!"{d.file}:{d.line}:{d.column + 1}: {d.message}\n    {d.snippet}\n{d.markLine}"
  else s!"{d.file}: {d.message}"

end Diagnostic

/-- Diagnostics in the order in which they were found. -/
abbrev Report := List Diagnostic

namespace Report

/-- Looks errors up in their source. -/
def ofErrors (errors : List Error) (file source : String) : Report :=
  errors.map fun error => .ofError error file source

/-- How diagnostics are shown: each ends its line, and an empty line stands between two. -/
def render (r : Report) : String :=
  "\n".intercalate (r.map fun d => d.render ++ "\n")

/-- Whether one of the errors is one of the running program. -/
def hasRuntimeErrors (r : Report) : Bool := r.any fun d => d.stage = .runtime

end Report

end TypedImp
