import TypedImp.Proofs.Grammar.Forward
import TypedImp.Proofs.Grammar.ProgramFuel

/-!
# Parsing makes progress and ends

The parts of the parser call each other and run in loops, and advancing does nothing at the end of
the input.  So a loop could go round without passing a token, and it would never end.  It does not,
because each part that a loop repeats passes a token whenever it succeeds.

## Positions

A place in the tokens is the number of tokens passed.  The places that the parser can be at are
those that it reaches by advancing, and these are the ones up to the first end of input, whether the
list has one, several or none.  The position of a place and the number of tokens up to the next end
of input have the same sum everywhere, so a bound on where a computation stops is never more than
reading off this sum.

* `firstEnd`: the position of the first end of input.
* `position_reached`: the positions that are reached by advancing.
* `Parse.Progresses`, `ProgressesFrom`: what it means that the parser makes progress.
* `ParsesToEnd`: whole lists of tokens.
* `parsing_progresses`: **the parser makes progress and ends**.
-/

namespace TypedImp

/-! ## Positions -/

/-- The position of the first end of input.  One stands behind the last token if there is none among
the tokens. -/
def firstEnd (tokens : List Token) : Nat :=
  (tokens.takeWhile fun t => t.kind ≠ .endOfInput).length

theorem firstEnd_append_endAt (tokens : List Token) (p : Position) :
    firstEnd (tokens ++ [.endAt p]) = firstEnd tokens := by
  have hlast : [Token.endAt p].takeWhile (fun t => decide (t.kind ≠ .endOfInput)) = [] := rfl
  rw [firstEnd, List.takeWhile_append, hlast, List.append_nil]
  split
  · next hall => exact hall.symm
  · rfl

theorem remaining_ofTokens (tokens : List Token) :
    (Cursor.ofTokens tokens).remaining = firstEnd tokens := by
  cases tokens with
  | nil => rfl
  | cons token tokens =>
    unfold Cursor.ofTokens
    dsimp only
    split
    · rfl
    · exact firstEnd_append_endAt (token :: tokens) _

theorem position_ofTokens (tokens : List Token) : (Cursor.ofTokens tokens).position = 0 :=
  congrArg List.length (Cursor.before_ofTokens tokens)

/-- Advancing goes on for as long as there are tokens before the end of input. -/
theorem Cursor.position_iterate {c : Cursor} (hc : c.Ends) (k : Nat) :
    (Cursor.advance^[k] c).position = c.position + min k c.remaining := by
  induction k with
  | zero => simp
  | succ k ih =>
    have hmoves := c.moves_iterate k
    have hsum := hmoves.position_add_remaining
    rw [Function.iterate_succ_apply']
    generalize Cursor.advance^[k] c = c' at ih hmoves hsum ⊢
    by_cases hend : c'.current.kind = .endOfInput
    · have hnone := c'.remaining_eq_zero_iff.mpr hend
      rw [Cursor.advance_of_end hend]
      omega
    · have hsome := mt c'.remaining_eq_zero_iff.mp hend
      have hnext := Cursor.position_advance (hmoves.ends hc) hend
      omega

/-- The places that are reached by advancing: at each position up to that of the first end of input
there is one, and there the current token is an end of input. -/
theorem position_reached (tokens : List Token) (k : Nat) :
    (Cursor.advance^[k] (Cursor.ofTokens tokens)).position = min k (firstEnd tokens) := by
  rw [Cursor.position_iterate (Cursor.ends_ofTokens tokens), position_ofTokens,
    remaining_ofTokens, Nat.zero_add]

/-! ## Progress -/

namespace Parse

/-- With enough fuel a computation has one result, which is not the want of fuel.  If it succeeds it
has passed a token, and in no case it has moved backwards or past a limit. -/
def Progresses {α : Type} (limit : Nat) (x : Nat → Parse α) (c : Cursor) : Prop :=
  ∃ r, (∀ fuel, c.fuel ≤ fuel → x fuel c = r) ∧
    match r with
    | .ok _ c' => c.position < c'.position ∧ c'.position ≤ limit
    | .error stop c' => stop ≠ .exhausted ∧ c.position ≤ c'.position ∧ c'.position ≤ limit

theorem progresses_of_steady {α : Type} {x : Nat → Parse α} {c : Cursor} {d limit : Nat}
    (h : Steady d 1 x c) (hd : d ≤ 8) (hlimit : c.position + c.remaining = limit) :
    Progresses limit x c := by
  obtain ⟨r, hr, hadvances⟩ := h
  refine ⟨r, fun fuel hfuel => hr fuel (Nat.le_trans (le_fuel c hd) hfuel), ?_⟩
  cases r with
  | ok a c' =>
    obtain ⟨hmoves, hlength⟩ := hadvances
    have hsum := hmoves.position_add_remaining
    exact ⟨hmoves.position_lt hlength, by omega⟩
  | error stop c' =>
    obtain ⟨hstop, hmoves⟩ := hadvances
    have hsum := hmoves.position_add_remaining
    exact ⟨hstop, hmoves.position_le, by omega⟩

end Parse

/-! ## Whole lists of tokens -/

/-- One round of reading definitions. -/
theorem definitions_succ_apply (g : Grammar) (fuel : Nat) (p : Program) (c : Cursor) :
    Parse.definitions g (fuel + 1) p c =
      if c.current.kind = .endOfInput then .ok p c
      else (Parse.definition g fuel p >>= Parse.definitions g fuel) c := by
  change (if c.hasTokens then _ else _ : Parse Program) c = _
  by_cases hend : c.current.kind = .endOfInput
  · have hnone : c.hasTokens = false := by simp [Cursor.hasTokens, hend]
    rw [if_pos hend, hnone]
    rfl
  · have hsome : c.hasTokens = true := by simp [Cursor.hasTokens, hend]
    rw [if_neg hend, hsome]
    rfl

/-- Reading definitions succeeds at an end of input only. -/
theorem end_of_definitions {g : Grammar} {fuel : Nat} {p program : Program} {c c' : Cursor}
    (h : Parse.definitions g fuel p c = .ok program c') : c'.current.kind = .endOfInput := by
  induction fuel generalizing p c with
  | zero => cases h
  | succ fuel ih =>
    rw [definitions_succ_apply] at h
    split at h
    · next hend =>
      cases h
      exact hend
    · obtain ⟨p', c₁, -, hrest⟩ := Parse.bind_eq_ok h
      exact ih hrest

/-- Parsing has one result however much fuel there is beyond some amount.  A program is the result
at the first end of input only. -/
def ParsesToEnd (tokens : List Token) : Prop :=
  ∃ r, (∀ fuel, (Cursor.ofTokens tokens).fuel ≤ fuel →
      Parse.definitions .standard fuel .empty (Cursor.ofTokens tokens) = r) ∧
    match r with
    | .ok program c => parse tokens = .ok program ∧ c.position = firstEnd tokens ∧
        c.current.kind = .endOfInput
    | .error stop _ => parse tokens = .error stop ∧ stop ≠ .exhausted

theorem parsesToEnd (tokens : List Token) : ParsesToEnd tokens := by
  obtain ⟨r, hr, hadvances⟩ :=
    Parse.ready_definitions (Cursor.ends_ofTokens tokens) Program.empty
  have henough := Parse.le_fuel (Cursor.ofTokens tokens) (d := 4) (by omega)
  have hresult : Parse.definitions .standard (Cursor.ofTokens tokens).fuel .empty
      (Cursor.ofTokens tokens) = r := hr _ henough
  refine ⟨r, fun fuel hfuel => hr fuel (Nat.le_trans henough hfuel), ?_⟩
  cases r with
  | error stop c =>
    refine ⟨?_, hadvances.1⟩
    unfold parse
    dsimp only
    rw [hresult]
  | ok program c =>
    have hend := end_of_definitions hresult
    have hsum := hadvances.1.position_add_remaining
    rw [c.remaining_eq_zero_iff.mpr hend, position_ofTokens, remaining_ofTokens] at hsum
    refine ⟨?_, by omega, hend⟩
    unfold parse
    dsimp only
    rw [hresult]

/-- The parser makes progress from a place on.  Each part of it has a result, and what is read
successfully passes a token.  No computation of the grammar, whatever its rules are and however it
ends, moves backwards or past the limit, and where it stops it could also have been by advancing. -/
structure ProgressesFrom (limit : Nat) (c : Cursor) : Prop where
  expr : ∀ above, Parse.Progresses limit (Parse.expr .standard · above) c
  stmt : Parse.Progresses limit (Parse.stmt .standard) c
  block : Parse.Progresses limit (Parse.block .standard) c
  type : Parse.Progresses limit (Parse.type .standard) c
  varDecl : Parse.Progresses limit (Parse.varDecl .standard) c
  function : Parse.Progresses limit (Parse.function .standard) c
  definition : ∀ program, Parse.Progresses limit (Parse.definition .standard · program) c
  call : ∀ (g : Grammar) (α : Type) (x : Parse α), Parse.Called g x →
    c.position ≤ (final (x c)).position ∧ (final (x c)).position ≤ limit ∧
      ∃ n, final (x c) = Cursor.advance^[n] c

theorem Cursor.Ends.progresses {c : Cursor} (hc : c.Ends) {limit : Nat}
    (hlimit : c.position + c.remaining = limit) : ProgressesFrom limit c where
  expr above := Parse.progresses_of_steady (Parse.steady_expr hc above) (by omega) hlimit
  stmt := Parse.progresses_of_steady (Parse.steady_stmt hc) (by omega) hlimit
  block := by
    have hblock : Steady 1 1 (Parse.block .standard) c :=
      Parse.steady_block hc fun c' hc' _ => Parse.steady_stmt hc'
    exact Parse.progresses_of_steady hblock (by omega) hlimit
  type := Parse.progresses_of_steady (Parse.steady_type hc) (by omega) hlimit
  varDecl := Parse.progresses_of_steady (d := 0) (Parse.steady_varDecl hc) (by omega) hlimit
  function := Parse.progresses_of_steady (d := 0) (Parse.steady_function hc) (by omega) hlimit
  definition program :=
    Parse.progresses_of_steady (d := 0) (Parse.steady_definition hc program) (by omega) hlimit
  call g α x hx := by
    have hmoves := hx.forward c
    have hsum := hmoves.position_add_remaining
    exact ⟨hmoves.position_le, by omega, hmoves.exists_iterate⟩

/-- **The parser makes progress and ends.**  Take any tokens, with or without an end of input behind
them, and with ends of input anywhere among them.

* Parsing them has a result, and if it succeeds then at the first end of input.
* Advancing leads to the positions up to the first end of input, and no further.
* From each of these places the parser makes progress: expressions, statements, blocks, types,
  definitions of variables and functions and definitions on the top level are results or errors, and
  those that are read pass a token.  No computation moves backwards or past the first end of
  input. -/
theorem parsing_progresses (tokens : List Token) :
    ParsesToEnd tokens ∧
    ∀ k, (Cursor.advance^[k] (Cursor.ofTokens tokens)).position = min k (firstEnd tokens) ∧
      ProgressesFrom (firstEnd tokens) (Cursor.advance^[k] (Cursor.ofTokens tokens)) := by
  refine ⟨parsesToEnd tokens, fun k => ⟨position_reached tokens k, ?_⟩⟩
  have hmoves := (Cursor.ofTokens tokens).moves_iterate k
  have hsum := hmoves.position_add_remaining
  rw [position_ofTokens, remaining_ofTokens, Nat.zero_add] at hsum
  exact (hmoves.ends (Cursor.ends_ofTokens tokens)).progresses hsum

end TypedImp
