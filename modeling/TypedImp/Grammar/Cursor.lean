import TypedImp.Error
import TypedImp.Token.Basic

/-!
# A place in a list of tokens

Parsing moves a cursor over tokens.  The last token always marks the end of the input, and the
cursor never moves past a token of that kind, so there is always a current token.

* `Cursor.ofTokens`: the cursor at the first of some tokens.
* `Cursor.advance`, `Cursor.peek`, `Cursor.previousSpan`: moving and looking around.
* `Parse`: computations that move a cursor and keep it where they stop.
* `Parse.expect`, `Parse.expectFor`, `Parse.fail`: the token that has to come next.
* `Parse.commaSeparated`, `Parse.untilParen`: lists of items.
-/

namespace TypedImp

/-- A place in a list of tokens. -/
structure Cursor where
  /-- The tokens passed so far, the last one first. -/
  before : List Token
  /-- The token at the place. -/
  current : Token
  /-- The tokens behind it. -/
  ahead : List Token
deriving DecidableEq, Repr

namespace Cursor

/-- The cursor at the first of the tokens.  An end of input is added behind the last token if it is
not one; without any token it stands before the first line. -/
def ofTokens : List Token → Cursor
  | [] => ⟨[], .endAt ⟨0, 0, 0⟩, []⟩
  | token :: tokens =>
    let last := tokens.getLastD token
    if last.kind = .endOfInput then ⟨[], token, tokens⟩
    else ⟨[], token, tokens ++ [.endAt last.span.stop]⟩

/-- Number of tokens passed so far. -/
def position (c : Cursor) : Nat := c.before.length

/-- The cursor one token on, unless the current token is an end of input. -/
def advance (c : Cursor) : Cursor :=
  if c.current.kind = .endOfInput then c
  else
    match c.ahead with
    | [] => c
    | token :: tokens => ⟨c.current :: c.before, token, tokens⟩

/-- The token `n` places on; past the end, the last token. -/
def peek (c : Cursor) : Nat → Token
  | 0 => c.current
  | n + 1 => c.ahead[n]?.getD (c.ahead.getLastD c.current)

/-- Whether the current token is not an end of input. -/
def hasTokens (c : Cursor) : Bool := c.current.kind ≠ .endOfInput

/-- The span of the token passed last; before the first one, that of the current token. -/
def previousSpan (c : Cursor) : Span := (c.before.head?.getD c.current).span

/-- The error of meeting the current token where another one is required. -/
def unexpected (c : Cursor) : Error := ⟨.unexpectedToken c.current.description, c.current.span⟩

/-- The error of meeting the current token, with what was required instead. -/
def unexpectedFor (c : Cursor) (message : String) : Error :=
  ⟨.unexpectedTokenDetailed c.current.description message, c.current.span⟩

/-- Fuel that is enough to parse what is ahead: between one token and the next there is only a
handful of calls. -/
def fuel (c : Cursor) : Nat := 4 * (c.ahead.length + 2)

end Cursor

/-- A computation that moves a cursor.  The cursor stays where the computation stops, with a result
or without one. -/
abbrev Parse (α : Type) := EStateM Stop Cursor α

namespace Parse

/-- Stops with an error. -/
def raise {α : Type} (error : Error) : Parse α := throw (.fault error)

/-- Stops for want of fuel. -/
def exhausted {α : Type} : Parse α := throw .exhausted

/-- The kind of the current token. -/
def currentKind : Parse TokenKind := do
  return (← get).current.kind

/-- The kind of the token `n` places on. -/
def peekKind (n : Nat) : Parse TokenKind := do
  return ((← get).peek n).kind

/-- Passes the current token and answers it. -/
def next : Parse Token := do
  let c ← get
  set c.advance
  return c.current

/-- Stops at the current token, with what was required instead. -/
def fail {α : Type} (message : String) : Parse α := do
  raise ((← get).unexpectedFor message)

/-- Passes a token of the given kind. -/
def expect (kind : TokenKind) : Parse Token := do
  let c ← get
  if c.current.kind = kind then next else raise c.unexpected

/-- Passes a token of the given kind; the message says what it would have been for. -/
def expectFor (kind : TokenKind) (message : String) : Parse Token := do
  let c ← get
  if c.current.kind = kind then next else raise (c.unexpectedFor message)

/-- The span from the start of `span` to the last token passed. -/
def spanFrom (span : Span) : Parse Span := do
  return span.join (← get).previousSpan

/-- Passes the current token if it is of the given kind, and tells whether it was. -/
def skip (kind : TokenKind) : Parse Bool := do
  if (← currentKind) = kind then
    let _ ← next
    return true
  else return false

/-- One or more items with commas between them. -/
def commaSeparated {α : Type} (item : Parse α) : (fuel : Nat) → Parse (List α)
  | 0 => exhausted
  | fuel + 1 => do
    let first ← item
    if (← currentKind) = .comma then
      let _ ← next
      let rest ← commaSeparated item fuel
      return first :: rest
    else return [first]

/-- Items with commas between them up to a closing parenthesis, which is not passed. -/
def untilParen {α : Type} (item : Parse α) (fuel : Nat) : Parse (List α) := do
  if (← currentKind) = .closeParen then return []
  else commaSeparated item fuel

end Parse

end TypedImp
