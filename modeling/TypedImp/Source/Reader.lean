import TypedImp.Source.Position

/-!
# Reading a text byte by byte

A reader is a text with a place in it.  It moves by a number of bytes, which takes in every
character that ends within that number, and it never moves past the end of the text.

* `Reader.ofString`, `Reader.advance`: the start of a text and how to move on.
* `Reader.next?`, `Reader.isAtEnd`: what stands at the place.
-/

namespace TypedImp

/-- A source text together with a place in it. -/
structure Reader where
  /-- The place. -/
  position : Position
  /-- The characters from the place on. -/
  rest : List Char

namespace Reader

/-- A reader at the start of a text. -/
def ofString (source : String) : Reader := ⟨.start, source.toList⟩

/-- The characters of `cs` that end within the first `n` bytes. -/
def withinBytes : Nat → List Char → List Char
  | _, [] => []
  | n, c :: cs => if c.utf8Size ≤ n then c :: withinBytes (n - c.utf8Size) cs else []

/-- Moves on by `n` bytes, at most to the end of the text. -/
def advance (r : Reader) (n : Nat) : Reader :=
  let passed := withinBytes n r.rest
  ⟨r.position.advance passed, r.rest.drop passed.length⟩

/-- The character at the place, if there is one. -/
def next? (r : Reader) : Option Char := r.rest.head?

/-- Whether no character is left. -/
def isAtEnd (r : Reader) : Bool := r.rest.isEmpty

/-- The text from the place on. -/
def remainder (r : Reader) : String := String.ofList r.rest

end Reader

end TypedImp
