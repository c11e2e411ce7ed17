import TypedImp.Pipeline
import TypedImp.Source.FileTree
import TypedImp.Text.Control

/-!
# The command line

There are three commands: `run` calls a function of a file, `check` only compiles it, and `tokens`
lists its tokens.  Everything here is a function of the arguments and of what reading the file
gives, so that only reading and writing are left to do.

* `Piece`, `Piece.ofText`: what a single argument stands for.
* `Command`, `Command.ofArguments`: what is asked for.
* `Command.execute`: what comes out of it.
-/

namespace TypedImp

/-- What the command line asks for. -/
inductive Command where
  | run (file entry : String) (arguments : List Value)
  | check (file : String)
  | tokens (file : String)
deriving DecidableEq, Repr

/-- Why a command line is refused. -/
inductive Refusal where
  /-- An argument for the function is no value. -/
  | badValue (text : String)
  /-- The command line has not the required form. -/
  | usage
deriving DecidableEq, Repr

/-- What a command leaves behind. -/
structure Outcome where
  exitCode : Nat
  stdout : String
  stderr : String
deriving DecidableEq, Repr

namespace Refusal

/-- The message for a refused command line.  It goes to a terminal or to a file, so it does not
repeat control sequences. -/
def message : Refusal → String
  | badValue text =>
    s!"error: invalid value '{Text.withoutControl text}' for '--arg <VALUE>': " ++
      Value.readError text
  | usage => "error: the command line was not understood"

/-- What a refused command line leaves behind. -/
def outcome (r : Refusal) : Outcome :=
  ⟨2, "", s!"{r.message}\n\nFor more information, try '--help'.\n"⟩

end Refusal

/-- What a single argument stands for.  An option may have its value with it. -/
inductive Piece where
  /-- Only asks for more log lines. -/
  | verbosity
  /-- The name of the function to call. -/
  | entry (value : Option String)
  /-- An argument for the function. -/
  | argument (value : Option String)
  /-- Ends the options. -/
  | separator
  /-- A file. -/
  | operand
  | unknown
deriving DecidableEq, Repr

namespace Piece

/-- A value that is written in one piece with the letter of its option.  An equals sign may stand
between the two. -/
def attached? : List Char → Option String
  | [] => none
  | '=' :: cs => some (String.ofList cs)
  | cs => some (String.ofList cs)

/-- Options by their letters, behind a single dash.  The first one that takes a value ends them. -/
def ofLetters : List Char → Piece
  | [] => verbosity
  | 'v' :: cs => ofLetters cs
  | 'e' :: cs => entry (attached? cs)
  | _ => unknown

/-- The value of an option that is written as `name=value`. -/
def valueOf? (name text : List Char) : Option String :=
  if (name ++ ['=']).isPrefixOf text then some (String.ofList (text.drop (name.length + 1)))
  else none

/-- An option by its name, behind two dashes. -/
def ofName (text : List Char) : Piece :=
  if text = [] then separator
  else if text = "verbose".toList then verbosity
  else if text = "entry".toList then entry none
  else if text = "arg".toList then argument none
  else
    match valueOf? "entry".toList text, valueOf? "arg".toList text with
    | some value, _ => entry (some value)
    | none, some value => argument (some value)
    | none, none => unknown

/-- What an argument stands for.  A single dash is the name of a file. -/
def ofText (text : String) : Piece :=
  match text.toList with
  | ['-'] => operand
  | '-' :: '-' :: cs => ofName cs
  | '-' :: cs => ofLetters cs
  | _ => operand

end Piece

namespace Command

/-- The file that a command is about. -/
def file : Command → String
  | run file _ _ | check file | tokens file => file

/-! ## Reading the arguments -/

/-- The parts of a command that have been seen so far. -/
structure Seen where
  file : Option String
  entry : Option String
  arguments : List Value

namespace Seen

/-- Nothing has been seen. -/
def nothing : Seen := ⟨none, none, []⟩

/-- Notes the name of the function to call, which may be given once. -/
def addEntry (seen : Seen) (name : String) : Except Refusal Seen :=
  match seen.entry with
  | some _ => .error .usage
  | none => .ok { seen with entry := some name }

/-- Notes an argument for the function. -/
def addArgument (seen : Seen) (text : String) : Except Refusal Seen :=
  match Value.read? text with
  | none => .error (.badValue text)
  | some value => .ok { seen with arguments := seen.arguments ++ [value] }

/-- Notes the file, which may be given once and has a name. -/
def addFile (seen : Seen) (name : String) : Except Refusal Seen :=
  match seen.file with
  | some _ => .error .usage
  | none => if name = "" then .error .usage else .ok { seen with file := some name }

/-- The file, which a command cannot do without. -/
def requireFile (seen : Seen) : Except Refusal String :=
  match seen.file with
  | some file => .ok file
  | none => .error .usage

end Seen

/-- Goes through the arguments behind the name of a command that has options.  An option without a
value takes the argument behind it, unless that is an option itself. -/
def readOptions : List String → Seen → Except Refusal Seen
  | [], seen => .ok seen
  | text :: rest, seen =>
    match Piece.ofText text, rest with
    | .verbosity, rest => readOptions rest seen
    | .separator, rest => rest.foldlM Seen.addFile seen
    | .operand, rest => do readOptions rest (← seen.addFile text)
    | .entry (some value), rest => do readOptions rest (← seen.addEntry value)
    | .argument (some value), rest => do readOptions rest (← seen.addArgument value)
    | .entry none, value :: rest =>
      if Piece.ofText value = .operand then do readOptions rest (← seen.addEntry value)
      else .error .usage
    | .argument none, value :: rest =>
      if Piece.ofText value = .operand then do readOptions rest (← seen.addArgument value)
      else .error .usage
    | .entry none, [] | .argument none, [] | .unknown, _ => .error .usage

/-- Goes through the arguments behind the name of a command without options. -/
def readOperands : List String → Seen → Except Refusal Seen
  | [], seen => .ok seen
  | text :: rest, seen =>
    match Piece.ofText text with
    | .verbosity => readOperands rest seen
    | .separator => rest.foldlM Seen.addFile seen
    | .operand => do readOperands rest (← seen.addFile text)
    | .entry _ | .argument _ | .unknown => .error .usage

/-- The command that the arguments of the program ask for. -/
def ofArguments (arguments : List String) : Except Refusal Command := do
  match arguments.dropWhile fun text => Piece.ofText text = .verbosity with
  | "run" :: rest =>
    let seen ← readOptions rest .nothing
    return .run (← seen.requireFile) (seen.entry.getD "main") seen.arguments
  | "check" :: rest => return .check (← (← readOperands rest .nothing).requireFile)
  | "tokens" :: rest => return .tokens (← (← readOperands rest .nothing).requireFile)
  | _ => .error .usage

/-! ## Carrying it out -/

/-- Texts, each on a line of its own. -/
def lines (texts : List String) : String := String.join (texts.map fun text => text ++ "\n")

/-- What is left behind when a program has errors; the report is followed by a summary. -/
def failure (stdout : String) (report : Report) (name : String) : Outcome :=
  let what := if report.hasRuntimeErrors then "failed while running" else "failed to compile"
  ⟨1, stdout, report.render ++ s!"Error: {name} {what} ({report.length} error(s))\n"⟩

/-- What is left behind when the file cannot be read. -/
def unreadable (path : String) (reason : ReadFailure) : Outcome :=
  ⟨1, "", s!"Error: Failed to read {path}\n\nCaused by:\n    {reason.description}\n"⟩

/-- Runs a function.  What it prints comes first, and then its result if it has one. -/
def executeRun (fuel : Nat) (source name entry : String) (arguments : List Value) : Outcome :=
  let (result, output) := runSource fuel source name entry arguments
  let printed := lines output.toList
  match result with
  | .value .void => ⟨0, printed, ""⟩
  | .value value => ⟨0, printed ++ value.text ++ "\n", ""⟩
  | .failed report => failure printed report name
  | .exhausted => ⟨1, printed, ""⟩

/-- Compiles a file and counts its definitions. -/
def executeCheck (source name : String) : Outcome :=
  match compile source name with
  | .ok checked =>
    let functions := checked.program.functions.length
    let globals := checked.program.globals.length
    ⟨0, s!"{name}: ok ({functions} functions, {globals} globals)\n", ""⟩
  | .error report => failure "" report name

/-- Lists the tokens of a file. -/
def executeTokens (source name : String) : Outcome :=
  match tokenize source with
  | .ok list => ⟨0, lines (list.map Token.summary), ""⟩
  | .error errors => failure "" (.ofErrors errors name source) name

/-- Carries out a command on what reading its file gave. -/
def execute (fuel : Nat) (command : Command) (content : Except ReadFailure String) : Outcome :=
  match content with
  | .error reason => unreadable command.file reason
  | .ok source =>
    let name := fileName command.file
    match command with
    | run _ entry arguments => executeRun fuel source name entry arguments
    | check _ => executeCheck source name
    | tokens _ => executeTokens source name

end Command

end TypedImp
