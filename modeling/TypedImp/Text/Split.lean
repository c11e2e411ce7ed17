/-!
# Cutting a text at a character

* `Text.split`: the pieces of a text between the occurrences of a character.
-/

namespace TypedImp.Text

/-- The pieces between the occurrences of `sep`, in order.  A text in which `sep` occurs `n` times
has `n + 1` pieces, some of which may be empty. -/
def split (sep : Char) : List Char → List (List Char)
  | [] => [[]]
  | c :: cs =>
    if c = sep then [] :: split sep cs
    else
      match split sep cs with
      | [] => [[c]]
      | piece :: pieces => (c :: piece) :: pieces

/-- A text has a piece. -/
theorem split_ne_nil (sep : Char) (cs : List Char) : split sep cs ≠ [] := by
  cases cs with
  | nil => simp [split]
  | cons c cs =>
    unfold split
    split
    · simp
    · split <;> simp

end TypedImp.Text
