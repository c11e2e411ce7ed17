import TypedImp.Source.Position

/-!
# Tokens

A token is a kind, the text it carries and the stretch of source it covers.  The text of a string
literal is what stands between its quotes; every other token carries its own spelling, and the one
that marks the end of the input carries nothing.

* `TokenKind`: the kinds, with `TokenKind.name` for showing them.
* `TokenKind.ofWord`: which words are reserved.
* `Token.summary`, `Token.listing`: the two ways to show a token.
-/

namespace TypedImp

/-- The kinds of tokens. -/
inductive TokenKind where
  | endOfInput
  | number
  | string
  | identifier
  | openCurly
  | closeCurly
  | openParen
  | closeParen
  /-- The sign `=`. -/
  | assignment
  /-- The sign `==`. -/
  | equals
  | not
  | notEquals
  | less
  | lessEquals
  | greater
  | greaterEquals
  | dot
  | semicolon
  | colon
  | colonEquals
  | comma
  | arrow
  | plus
  | dash
  | slash
  | star
  | trueWord
  | falseWord
  | forWord
  | ifWord
  | elseWord
  | whileWord
  | returnWord
  | mutableWord
  | underscore
deriving DecidableEq, Repr

namespace TokenKind

/-- The name under which a kind is shown. -/
def name : TokenKind → String
  | endOfInput => "EOF"
  | number => "Number"
  | string => "String"
  | identifier => "Identifier"
  | openCurly => "OpenCurly"
  | closeCurly => "CloseCurly"
  | openParen => "OpenParen"
  | closeParen => "CloseParen"
  | assignment => "Assignment"
  | equals => "Equals"
  | not => "Not"
  | notEquals => "NotEquals"
  | less => "Less"
  | lessEquals => "LessEquals"
  | greater => "Greater"
  | greaterEquals => "GreaterEquals"
  | dot => "Dot"
  | semicolon => "Semicolon"
  | colon => "Colon"
  | colonEquals => "ColonEquals"
  | comma => "Comma"
  | arrow => "Arrow"
  | plus => "Plus"
  | dash => "Dash"
  | slash => "Slash"
  | star => "Star"
  | trueWord => "True"
  | falseWord => "False"
  | forWord => "For"
  | ifWord => "If"
  | elseWord => "Else"
  | whileWord => "While"
  | returnWord => "Return"
  | mutableWord => "Mutable"
  | underscore => "Underscore"

/-- The kind of a word: reserved words have kinds of their own, all others are identifiers. -/
def ofWord (word : String) : TokenKind :=
  if word = "true" then trueWord
  else if word = "false" then falseWord
  else if word = "for" then forWord
  else if word = "if" then ifWord
  else if word = "else" then elseWord
  else if word = "while" then whileWord
  else if word = "return" then returnWord
  else if word = "mutable" then mutableWord
  else if word = "_" then underscore
  else identifier

/-- Whether tokens of this kind differ in their text. -/
def hasOwnText : TokenKind → Bool
  | number | string | identifier => true
  | _ => false

end TokenKind

/-- A token of a source text. -/
structure Token where
  kind : TokenKind
  /-- The text the token carries. -/
  value : String
  /-- The stretch of source the token covers. -/
  span : Span
deriving DecidableEq, Repr

namespace Token

/-- The token that marks the end of the input. -/
def endAt (p : Position) : Token := ⟨.endOfInput, "", ⟨p, p⟩⟩

/-- Place, kind and text in one line; only tokens that differ in their text show it. -/
def summary (t : Token) : String :=
  let text := if t.kind.hasOwnText then t.value else ""
  s!"{t.span.start.line}:{t.span.start.column} {t.kind.name} ({text})"

/-- Kind and text on lines of their own. -/
def listing (t : Token) : String :=
  s!"Token \x7b\nkind: {t.kind.name},\nvalue: {t.value}\x7d"

/-- How an error message names the token. -/
def description (t : Token) : String :=
  if t.kind = .endOfInput then "end of input" else t.value

end Token

end TypedImp
