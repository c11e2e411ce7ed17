/-!
# Positions and spans of a source text

A position counts a text in three ways at once: bytes from the start, lines from one, and
characters since the last line break from zero.  All three are determined by the characters that
stand before the position, so there is a single way to move: `Position.step` over one character.

* `Position.start`, `Position.step`, `Position.advance`: the first position and how reading moves
  it.
* `Span.join`, `Span.length`, `Span.unlocated`: stretches between two positions.
-/

namespace TypedImp

/-- A place between two characters of a source text. -/
structure Position where
  /-- Bytes of the text before this place. -/
  offset : Nat
  /-- Lines begun so far; the first line has number one. -/
  line : Nat
  /-- Characters since the start of the line. -/
  column : Nat
deriving DecidableEq, Repr

namespace Position

/-- The place before the first character of a text. -/
def start : Position := ⟨0, 1, 0⟩

/-- The place after the character `c`.  Only a line feed begins a new line. -/
def step (p : Position) (c : Char) : Position :=
  if c = '\n' then ⟨p.offset + c.utf8Size, p.line + 1, 0⟩
  else ⟨p.offset + c.utf8Size, p.line, p.column + 1⟩

/-- The place after the characters `cs`. -/
def advance (p : Position) (cs : List Char) : Position :=
  cs.foldl step p

@[simp] theorem advance_nil (p : Position) : p.advance [] = p := rfl

@[simp] theorem advance_cons (p : Position) (c : Char) (cs : List Char) :
    p.advance (c :: cs) = (p.step c).advance cs := rfl

/-- Reading two stretches in turn is reading their concatenation. -/
theorem advance_append (p : Position) (cs ds : List Char) :
    p.advance (cs ++ ds) = (p.advance cs).advance ds :=
  List.foldl_append

end Position

/-- A stretch of source text between two places. -/
structure Span where
  /-- Where the stretch begins. -/
  start : Position
  /-- Where the stretch ends. -/
  stop : Position
deriving DecidableEq, Repr

namespace Span

/-- The span of something that has no place in the text: empty, at the very start. -/
def unlocated : Span := ⟨.start, .start⟩

/-- Whether this is the span of something that has no place in the text. -/
def isUnlocated (s : Span) : Bool := s = unlocated

/-- The span from the start of `s` to the end of `t`. -/
def join (s t : Span) : Span := ⟨s.start, t.stop⟩

/-- Bytes covered; none when the ends are out of order. -/
def length (s : Span) : Nat := s.stop.offset - s.start.offset

/-- Whether no byte is covered. -/
def isEmpty (s : Span) : Bool := s.length = 0

@[simp] theorem join_start (s t : Span) : (s.join t).start = s.start := rfl

@[simp] theorem join_stop (s t : Span) : (s.join t).stop = t.stop := rfl

end Span

end TypedImp
