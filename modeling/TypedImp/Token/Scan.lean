import TypedImp.Error
import TypedImp.Token.Pattern

/-!
# From text to tokens

Scanning cuts a text into lexemes from left to right.  A lexeme is a separator, a token or a
stretch that no token can be made of.  A bad stretch does not end the scan: it is noted, passed
over, and scanning goes on behind it, so that one scan finds every bad stretch of a text.

* `Lexeme.first`: the lexeme at the start of a text.
* `scan`: tokens and errors of a text, in order.
* `tokenize`: the tokens of a text, or all of its errors.
-/

namespace TypedImp

/-- What a lexeme amounts to. -/
inductive Found where
  /-- A separator. -/
  | nothing
  /-- A token of this kind with this text. -/
  | token (kind : TokenKind) (value : String)
  /-- A bad stretch; the first `width` characters are what the error shows. -/
  | fault (cause : Cause) (width : Nat)
deriving DecidableEq, Repr

/-- A stretch of text that scanning takes in one step. -/
structure Lexeme where
  /-- Number of characters. -/
  width : Nat
  found : Found
deriving DecidableEq, Repr

namespace Lexeme

/-- The lexeme at the start of `cs`, where a rule with this meaning reaches over `width`
characters. -/
def ofRule (cs : List Char) (width : Nat) : Meaning → Lexeme
  | .separator => ⟨width, .nothing⟩
  | .comment =>
    match commentWidth? 0 (cs.drop width) with
    | some rest => ⟨width + rest, .nothing⟩
    -- A comment without an end takes in the rest of the text.
    | none => ⟨cs.length, .fault .unterminatedComment width⟩
  | .word =>
    let text := String.ofList (cs.take width)
    ⟨width, .token (.ofWord text) text⟩
  | .token kind => ⟨width, .token kind (String.ofList (cs.take width))⟩
  | .literal => ⟨width, .token .string (String.ofList ((cs.take (width - 1)).drop 1))⟩
  | .unclosedLiteral => ⟨width, .fault .unterminatedString width⟩

/-- The lexeme at the start of the nonempty text `c :: cs`.  A character that no rule fits is a
lexeme of its own. -/
def first (c : Char) (cs : List Char) : Lexeme :=
  match Rule.first? (c :: cs) with
  | some (meaning, width) => ofRule (c :: cs) width meaning
  | none => ⟨1, .fault (.unrecognisedToken (String.singleton c)) 1⟩

end Lexeme

/-- What scanning notes down: a token or an error. -/
inductive Item where
  | token (token : Token)
  | fault (error : Error)
deriving DecidableEq, Repr

namespace Item

/-- The token, if this is one. -/
def token? : Item → Option Token
  | token t => some t
  | fault _ => none

/-- The error, if this is one. -/
def error? : Item → Option Error
  | token _ => none
  | fault e => some e

/-- What to note down for a lexeme that starts at `p` with the text `cs`. -/
def ofLexeme? (p : Position) (cs : List Char) (lexeme : Lexeme) : Option Item :=
  match lexeme.found with
  | .nothing => none
  | .token kind value => some (token ⟨kind, value, ⟨p, p.advance (cs.take lexeme.width)⟩⟩)
  | .fault cause width => some (fault ⟨cause, ⟨p, p.advance (cs.take width)⟩⟩)

end Item

/-- Tokens and errors of a text that starts at `p`, in order. -/
def scan (p : Position) : List Char → List Item
  | [] => []
  | c :: cs =>
    let lexeme := Lexeme.first c cs
    -- The character `c` is always passed over, so the rest is shorter.
    let rest := scan (p.advance ((c :: cs).take lexeme.width)) (cs.drop (lexeme.width - 1))
    match Item.ofLexeme? p (c :: cs) lexeme with
    | some item => item :: rest
    | none => rest
termination_by cs => cs.length
decreasing_by simp only [List.length_drop, List.length_cons]; omega

/-- The tokens of a text, with the token that marks its end, or all of its errors if it has any. -/
def tokenize (source : String) : Except (List Error) (List Token) :=
  let cs := source.toList
  let items := scan .start cs
  match items.filterMap Item.error? with
  | [] => .ok (items.filterMap Item.token? ++ [.endAt (Position.start.advance cs)])
  | errors => .error errors

end TypedImp
