import TypedImp.Token.Basic

/-!
# The shapes of tokens

What may stand at a place of a source text is given by a table of rules.  Each rule has a pattern,
which says how many characters it covers there, and a meaning.  The rules are tried in order and
the first whose pattern fits is taken, so longer spellings come before their beginnings.

* `Pattern`, `Pattern.width?`: the patterns and how far they reach.
* `Rule.table`: the rules in order.
* `commentWidth?`: how far a block comment reaches; comments nest.
-/

namespace TypedImp

/-- Blanks between tokens.  No other white space separates tokens. -/
def isBlank (c : Char) : Bool := c = ' ' || c = '\t' || c = '\r' || c = '\n'

/-- Characters that may begin a word. -/
def isWordStart (c : Char) : Bool := c.isAlpha || c = '_'

/-- Characters that may continue a word. -/
def isWordPart (c : Char) : Bool := c.isAlphanum || c = '_'

/-- Characters that may stand inside a string literal. -/
def isStringPart (c : Char) : Bool := c ≠ '"' && c ≠ '\n'

/-- A shape that the text at a place may have. -/
inductive Pattern where
  /-- One or more blanks. -/
  | blanks
  /-- Two slashes and the rest of the line. -/
  | lineComment
  /-- Exactly the given characters. -/
  | fixed (spelling : List Char)
  /-- A letter or underscore, then letters, digits and underscores. -/
  | word
  /-- One or more digits. -/
  | digits
  /-- A string literal with both quotes. -/
  | closedString
  /-- A quote and all that may stand in a string literal after it. -/
  | openString
deriving DecidableEq, Repr

namespace Pattern

/-- The length of the longest beginning of `cs` whose characters all pass the test. -/
def runLength (test : Char → Bool) (cs : List Char) : Nat := (cs.takeWhile test).length

/-- How many characters of the text a pattern covers, if it fits at all. -/
def width? : Pattern → List Char → Option Nat
  | blanks, c :: cs => if isBlank c then some (1 + runLength isBlank cs) else none
  | lineComment, '/' :: '/' :: cs => some (2 + runLength (· ≠ '\n') cs)
  | fixed spelling, cs => if spelling.isPrefixOf cs then some spelling.length else none
  | word, c :: cs => if isWordStart c then some (1 + runLength isWordPart cs) else none
  | digits, c :: cs => if c.isDigit then some (1 + runLength Char.isDigit cs) else none
  | closedString, '"' :: cs =>
    if (cs.dropWhile isStringPart).head? = some '"' then some (2 + runLength isStringPart cs)
    else none
  | openString, '"' :: cs => some (1 + runLength isStringPart cs)
  | _, _ => none

end Pattern

/-- What the text that fits a pattern stands for. -/
inductive Meaning where
  /-- Nothing: it separates tokens. -/
  | separator
  /-- The beginning of a block comment. -/
  | comment
  /-- A reserved word or an identifier. -/
  | word
  /-- A token of the given kind. -/
  | token (kind : TokenKind)
  /-- A string literal. -/
  | literal
  /-- A string literal that lacks its closing quote. -/
  | unclosedLiteral
deriving DecidableEq, Repr

/-- A shape and what it stands for. -/
structure Rule where
  pattern : Pattern
  meaning : Meaning
deriving DecidableEq, Repr

namespace Rule

/-- The rule for a token that has one spelling. -/
def sign (spelling : List Char) (kind : TokenKind) : Rule := ⟨.fixed spelling, .token kind⟩

/-- The rules, in the order in which they are tried. -/
def table : List Rule :=
  [⟨.blanks, .separator⟩,
   ⟨.lineComment, .separator⟩,
   ⟨.fixed ['/', '*'], .comment⟩,
   ⟨.word, .word⟩,
   ⟨.digits, .token .number⟩,
   ⟨.closedString, .literal⟩,
   ⟨.openString, .unclosedLiteral⟩,
   sign ['-', '>'] .arrow,
   sign ['=', '='] .equals,
   sign ['!', '='] .notEquals,
   sign ['<', '='] .lessEquals,
   sign ['>', '='] .greaterEquals,
   sign [':', '='] .colonEquals,
   sign ['\x7b'] .openCurly,
   sign ['\x7d'] .closeCurly,
   sign ['('] .openParen,
   sign [')'] .closeParen,
   sign ['!'] .not,
   sign ['='] .assignment,
   sign ['<'] .less,
   sign ['>'] .greater,
   sign ['.'] .dot,
   sign [';'] .semicolon,
   sign [':'] .colon,
   sign [','] .comma,
   sign ['+'] .plus,
   sign ['-'] .dash,
   sign ['/'] .slash,
   sign ['*'] .star]

/-- The first rule that fits the text, with how far it reaches. -/
def first? (cs : List Char) : Option (Meaning × Nat) :=
  table.findSome? fun rule => (rule.pattern.width? cs).map fun width => (rule.meaning, width)

end Rule

/-- How many characters it takes to close a comment of which `depth + 1` levels are open.  The text
is read from the left in pieces: an opening, a closing, or one other character. -/
def commentWidth? : (depth : Nat) → List Char → Option Nat
  | depth, '/' :: '*' :: cs => (commentWidth? (depth + 1) cs).map (2 + ·)
  | 0, '*' :: '/' :: _ => some 2
  | depth + 1, '*' :: '/' :: cs => (commentWidth? depth cs).map (2 + ·)
  | depth, _ :: cs => (commentWidth? depth cs).map (1 + ·)
  | _, [] => none

end TypedImp
