import Mathlib.Data.Nat.PSub
import Mathlib.Logic.Function.Iterate
import TypedImp.Proofs.Grammar.ProgramFuel

/-!
# Tokens in a vector

A cursor keeps the tokens behind it and the tokens ahead of it in two lists, so there is always a
current token.  In memory the tokens are one vector and the cursor is an index, and looking at a
token may miss the vector.  Parsing does two things with its tokens: it looks around, and it
advances.  Here it is shown that after any number of advances no look misses the vector, and that
what is seen there is what the cursor sees.

## Why the index stays inside

The vector ends with the end of the input, and advancing stops at it.  Looking further ahead is cut
off at the last index; this index exists because a vector that was empty got the end of the input.

* `TokenVector.new`, `TokenVector.peek?`, `TokenVector.advance?`, `TokenVector.previousSpan?`:
  tokens in a vector.
* `Cursor.vector`: the vector of a cursor.
* `Cursor.peek?_vector`, `Cursor.previousSpan?_vector`: looking around.
* `TokenVector.reached?_vector`: **any number of advances**.
-/

namespace TypedImp

/-- Tokens with the index of the current one. -/
structure TokenVector where
  tokens : List Token
  position : Nat

namespace TokenVector

/-- The first place in some tokens.  An end of input is added behind the last token if it is not
one. -/
def new (tokens : List Token) : TokenVector :=
  if tokens.getLast?.map Token.kind = some .endOfInput then ⟨tokens, 0⟩
  else ⟨tokens ++ [.endAt ((tokens.getLast?.map fun token => token.span.stop).getD ⟨0, 0, 0⟩)], 0⟩

/-- The token `n` places on, but not behind the last one.  This fails without any token. -/
def peek? (v : TokenVector) (n : Nat) : Option Token := do
  let last ← v.tokens.length.ppred
  v.tokens[min (v.position + n) last]?

/-- Passes the current token, unless it is an end of input. -/
def advance? (v : TokenVector) : Option (Token × TokenVector) := do
  let token ← v.peek? 0
  if token.kind ≠ .endOfInput then return (token, { v with position := v.position + 1 })
  else return (token, v)

/-- The span of the token passed last; before the first one, that of the current token. -/
def previousSpan? (v : TokenVector) : Option Span := do
  if v.position = 0 then return (← v.peek? 0).span
  else return (← v.tokens[v.position - 1]?).span

/-- The vector after `k` advances. -/
def reached? (v : TokenVector) : (k : Nat) → Option TokenVector
  | 0 => some v
  | k + 1 => do
    let (_, v) ← v.advance?
    v.reached? k

end TokenVector

namespace Cursor

/-- The tokens of a cursor as a vector. -/
def vector (c : Cursor) : TokenVector :=
  ⟨c.before.reverse ++ c.current :: c.ahead, c.before.length⟩

theorem vector_ofTokens (tokens : List Token) : (ofTokens tokens).vector = .new tokens := by
  cases tokens with
  | nil => rfl
  | cons token tokens =>
    have hlast : (token :: tokens).getLast? = some (tokens.getLastD token) := by
      rw [List.getLast?_cons, List.getLastD_eq_getLast?]
    rw [TokenVector.new, hlast, ofTokens]
    simp only [Option.map_some, Option.some.injEq, Option.getD_some]
    by_cases hend : (tokens.getLastD token).kind = .endOfInput
    · rw [if_pos hend, if_pos hend]
      rfl
    · rw [if_neg hend, if_neg hend]
      rfl

/-- No look ahead misses the vector. -/
theorem peek?_vector (c : Cursor) (n : Nat) : c.vector.peek? n = some (c.peek n) := by
  have hlast : c.vector.tokens.length.ppred = some (c.before.length + c.ahead.length) := by
    have hlength : c.vector.tokens.length = c.before.length + c.ahead.length + 1 := by
      simp only [vector, List.length_append, List.length_reverse, List.length_cons]
      omega
    rw [hlength, Nat.ppred_succ]
  have hindex : min (c.before.length + n) (c.before.length + c.ahead.length) =
      c.before.length + min n c.ahead.length := by omega
  have hat : ∀ i, c.vector.tokens[c.before.length + i]? = (c.current :: c.ahead)[i]? := by
    intro i
    rw [vector, List.getElem?_append_right (by rw [List.length_reverse]; omega),
      List.length_reverse, Nat.add_sub_cancel_left]
  have hposition : c.vector.position = c.before.length := rfl
  rw [TokenVector.peek?, hlast, hposition]
  simp only [Option.bind_eq_bind, Option.bind_some, hindex, hat]
  cases n with
  | zero =>
    rw [Nat.zero_min]
    rfl
  | succ n =>
    rcases Nat.lt_or_ge n c.ahead.length with hlt | hge
    · rw [Nat.min_eq_left hlt, List.getElem?_cons_succ, peek, List.getElem?_eq_getElem hlt]
      rfl
    · -- The look goes behind the end and is cut off at the last token.
      rw [Nat.min_eq_right (Nat.le_succ_of_le hge), peek, List.getElem?_eq_none hge,
        Option.getD_none, List.getLastD_eq_getLast?, ← List.getLast?_cons,
        List.getLast?_eq_getElem?, List.length_cons, Nat.add_sub_cancel]

theorem previousSpan?_vector (c : Cursor) : c.vector.previousSpan? = some c.previousSpan := by
  rw [TokenVector.previousSpan?, peek?_vector]
  cases hbefore : c.before with
  | nil =>
    have hposition : c.vector.position = 0 := by rw [vector, hbefore]; rfl
    rw [if_pos hposition, previousSpan, hbefore]
    rfl
  | cons token before =>
    have hposition : c.vector.position = before.length + 1 := by rw [vector, hbefore]; rfl
    have htoken : c.vector.tokens[before.length]? = some token := by
      rw [vector, hbefore]
      simp
    rw [if_neg (by omega), hposition, Nat.add_sub_cancel, htoken, previousSpan, hbefore]
    rfl

/-- An advance ends inside of the vector. -/
theorem advance?_vector {c : Cursor} (h : c.Ends) :
    c.vector.advance? = some (c.current, c.advance.vector) := by
  rw [TokenVector.advance?, peek?_vector, peek]
  simp only [Option.bind_eq_bind, Option.bind_some]
  by_cases hend : c.current.kind = .endOfInput
  · rw [if_neg (not_not.mpr hend), advance_of_end hend]
    rfl
  · obtain ⟨token, tokens, hahead⟩ := List.exists_cons_of_ne_nil (ahead_ne_nil h hend)
    rw [if_pos hend, advance_of_cons hend hahead, vector, vector, hahead]
    simp

end Cursor

/-- **Any number of advances** stays inside of the vector. -/
theorem TokenVector.reached?_vector {c : Cursor} (h : c.Ends) (k : Nat) :
    c.vector.reached? k = some (Cursor.advance^[k] c).vector := by
  induction k generalizing c with
  | zero => rfl
  | succ k ih =>
    rw [TokenVector.reached?, Cursor.advance?_vector h]
    simp only [Option.bind_eq_bind, Option.bind_some]
    rw [ih h.advance, Function.iterate_succ_apply]

end TypedImp
