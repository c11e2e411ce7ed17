import TypedImp.CommandLine
import TypedImp.Diagnostic
import TypedImp.Error
import TypedImp.Execution.Machine
import TypedImp.Execution.Operators
import TypedImp.Execution.Run
import TypedImp.Frame
import TypedImp.Grammar.Cursor
import TypedImp.Grammar.Expressions
import TypedImp.Grammar.Programs
import TypedImp.Grammar.Statements
import TypedImp.Grammar.Table
import TypedImp.Grammar.Types
import TypedImp.Main
import TypedImp.Number.Binary32
import TypedImp.Number.Decimal
import TypedImp.Number.Shortest
import TypedImp.Pipeline
import TypedImp.Proofs.AccessSafety
import TypedImp.Proofs.CommentNesting
import TypedImp.Proofs.Concatenation
import TypedImp.Proofs.DefiniteReturn
import TypedImp.Proofs.ElaborationFrame
import TypedImp.Proofs.ErrorIsolation
import TypedImp.Proofs.ErrorRecovery
import TypedImp.Proofs.Execution.Conduct
import TypedImp.Proofs.Execution.Events
import TypedImp.Proofs.Execution.Frames
import TypedImp.Proofs.Execution.History
import TypedImp.Proofs.Execution.Layout
import TypedImp.Proofs.Execution.Nesting
import TypedImp.Proofs.Execution.SafeRuns
import TypedImp.Proofs.Execution.SafeSteps
import TypedImp.Proofs.Execution.Safety
import TypedImp.Proofs.Execution.Simulation
import TypedImp.Proofs.FrameDiscipline
import TypedImp.Proofs.FrameOperations
import TypedImp.Proofs.FunctionOrder
import TypedImp.Proofs.GlobalOrder
import TypedImp.Proofs.Grammar.Derivations
import TypedImp.Proofs.Grammar.Forward
import TypedImp.Proofs.Grammar.Fuel
import TypedImp.Proofs.Grammar.Moves
import TypedImp.Proofs.Grammar.PastEnd
import TypedImp.Proofs.Grammar.ProgramFuel
import TypedImp.Proofs.Grammar.SameWords
import TypedImp.Proofs.Grammar.Soundness
import TypedImp.Proofs.Guarded.Bytes
import TypedImp.Proofs.Guarded.Frames
import TypedImp.Proofs.Guarded.Scanning
import TypedImp.Proofs.Guarded.Tokens
import TypedImp.Proofs.Highlighting
import TypedImp.Proofs.Immutability
import TypedImp.Proofs.IntegerArithmetic
import TypedImp.Proofs.LayoutIndependence
import TypedImp.Proofs.LexemeRoundTrip
import TypedImp.Proofs.LiteralAgreement
import TypedImp.Proofs.LongestMatch
import TypedImp.Proofs.Number.Bits
import TypedImp.Proofs.Number.Decimals
import TypedImp.Proofs.Number.Layout
import TypedImp.Proofs.Number.Reading
import TypedImp.Proofs.Number.Rounding
import TypedImp.Proofs.ParsingProgress
import TypedImp.Proofs.Places.Checked
import TypedImp.Proofs.Places.Covered
import TypedImp.Proofs.Places.Lines
import TypedImp.Proofs.Places.Occupied
import TypedImp.Proofs.Places.Parsed
import TypedImp.Proofs.Places.Pipeline
import TypedImp.Proofs.Places.Spread
import TypedImp.Proofs.Places.Trees
import TypedImp.Proofs.PrecedenceLayers
import TypedImp.Proofs.PrintedValues
import TypedImp.Proofs.Printing.Expressions
import TypedImp.Proofs.Printing.Legible
import TypedImp.Proofs.Printing.Parsed
import TypedImp.Proofs.Printing.Programs
import TypedImp.Proofs.Printing.Reading
import TypedImp.Proofs.Printing.Statements
import TypedImp.Proofs.Printing.Tokens
import TypedImp.Proofs.Printing.WellFormed
import TypedImp.Proofs.Printing.Words
import TypedImp.Proofs.Rechecking
import TypedImp.Proofs.Relabel.Checking
import TypedImp.Proofs.Relabel.Execution
import TypedImp.Proofs.Relabel.Trees
import TypedImp.Proofs.RoundTrip
import TypedImp.Proofs.RunIndependence
import TypedImp.Proofs.ScopeLookups
import TypedImp.Proofs.ScopeResolution
import TypedImp.Proofs.SpanNesting
import TypedImp.Proofs.StagesApart
import TypedImp.Proofs.StaticScoping
import TypedImp.Proofs.Tiling
import TypedImp.Proofs.Token.Joining
import TypedImp.Proofs.Token.Lexemes
import TypedImp.Proofs.Token.Longest
import TypedImp.Proofs.Token.Rescanning
import TypedImp.Proofs.Token.Scanning
import TypedImp.Proofs.TypeSafety
import TypedImp.Proofs.Typing.BlockScopes
import TypedImp.Proofs.Typing.Checking
import TypedImp.Proofs.Typing.Elaboration
import TypedImp.Proofs.Typing.Rules
import TypedImp.Proofs.Typing.SameView
import TypedImp.Proofs.Typing.ScopeTree
import TypedImp.Scope
import TypedImp.Source.FileTree
import TypedImp.Source.Line
import TypedImp.Source.Position
import TypedImp.Source.Reader
import TypedImp.Syntax.Expr
import TypedImp.Syntax.Program
import TypedImp.Syntax.Stmt
import TypedImp.Text.Blank
import TypedImp.Text.Control
import TypedImp.Text.GraphemeExtend
import TypedImp.Text.Quoted
import TypedImp.Text.Split
import TypedImp.Text.Unprintable
import TypedImp.Token.Basic
import TypedImp.Token.Pattern
import TypedImp.Token.Scan
import TypedImp.Ty
import TypedImp.Typing.Context
import TypedImp.Typing.Expressions
import TypedImp.Typing.Programs
import TypedImp.Typing.Statements
import TypedImp.Value
