import TypedImp.Text.Split

/-!
# Lines of a source text

A text is cut at its line feeds, so a text with `n` line feeds has `n + 1` lines.  A carriage
return that ends a line belongs to the line break and not to the line.

* `Line.trimReturn`: a line without its carriage return.
* `Line.numbered?`: the line of a given number, without its line break.
-/

namespace TypedImp.Line

/-- A line without the one carriage return that may end it. -/
def trimReturn (line : List Char) : List Char :=
  if line.getLast? = some '\r' then line.dropLast else line

/-- The line with the given number, counted from one. -/
def numbered? (source : String) : Nat → Option String
  | 0 => none
  | n + 1 =>
    (Text.split '\n' source.toList)[n]?.map fun line => String.ofList (trimReturn line)

end TypedImp.Line
