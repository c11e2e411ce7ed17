import TypedImp.Proofs.Token.Scanning

/-!
# Scanning what was scanned

A token or a separator that once was found in a text may stand in another text.  Here it is said
what scanning makes of it there: a token is found again unless what follows goes on with it, and
what was passed over is passed over again unless a line comment gets a longer line.

* `scan_lexed`: a token in front of a text that does not prolong it.
* `scan_skipped`: blanks and comments in front of a text.
* `Token.word`, `ScansAs`: what a scan finds, wherever the text stands, with a law for each of the
  two.
* `tokenize_of_scansAs`: whole sources.
-/

namespace TypedImp

/-! ## One token -/

/-- A token is found where it stands in front of a text that does not go on with it. -/
theorem scan_lexed {kind : TokenKind} {value rest : List Char} (h : Lexed kind value)
    (hends : ∀ d, rest.head? = some d → ¬ Prolongs (spelled kind value) d) (pre : List Char) :
    scan (Position.start.advance pre) (spelled kind value ++ rest) =
      .token ⟨kind, String.ofList value, .ofText pre (spelled kind value)⟩ ::
        scan (Position.start.advance (pre ++ spelled kind value)) rest := by
  obtain ⟨-, -, -, -, hne, -⟩ := h.exists_rule
  obtain ⟨c, cs, hspelled⟩ := List.exists_cons_of_ne_nil hne
  rw [hspelled] at hends ⊢
  have hfirst := h.first_of_not_prolongs hspelled hends
  have hsplit : c :: (cs ++ rest) = (c :: cs) ++ rest := rfl
  have htake : (c :: (cs ++ rest)).take (c :: cs).length = c :: cs := List.take_left
  rw [List.cons_append, scan_append hsplit (List.cons_ne_nil c cs) (by rw [hfirst]), hfirst]
  simp only [Item.ofLexeme?, htake, Option.toList_some, List.singleton_append, Span.ofText,
    Position.advance_append]

/-! ## Blanks and comments -/

/-- Blanks are passed over together. -/
theorem scan_blanks {b : Char} (hb : isBlank b = true) (p : Position) (cs : List Char) :
    scan p (b :: cs) = scan (p.advance (b :: cs.takeWhile isBlank)) (cs.dropWhile isBlank) := by
  have hfirst := Lexeme.first_of_isBlank hb cs
  have hsplit : b :: cs = (b :: cs.takeWhile isBlank) ++ cs.dropWhile isBlank := by
    rw [List.cons_append, List.takeWhile_append_dropWhile]
  rw [scan_append hsplit (List.cons_ne_nil _ _) (by rw [hfirst, Nat.add_comm]; rfl), hfirst]
  rfl

/-- A blank is passed over. -/
theorem scan_blank {b : Char} (hb : isBlank b = true) (p : Position) (cs : List Char) :
    scan p (b :: cs) = scan (p.advance [b]) cs := by
  rw [scan_blanks hb]
  cases cs with
  | nil => rfl
  | cons d ds =>
    by_cases hd : isBlank d = true
    · rw [scan_blanks hd, List.takeWhile_cons_of_pos hd, List.dropWhile_cons_of_pos hd]
      rfl
    · rw [List.takeWhile_cons_of_neg hd, List.dropWhile_cons_of_neg hd]

/-- A line comment is passed over up to the end of its line. -/
theorem scan_lineComment {body rest : List Char} (hline : ∀ c ∈ body, c ≠ '\n')
    (hend : Stops (· ≠ '\n') rest) (p : Position) :
    scan p ('/' :: '/' :: body ++ rest) = scan (p.advance ('/' :: '/' :: body)) rest := by
  have hrun : Pattern.runLength (· ≠ '\n') (body ++ rest) = body.length :=
    Lexeme.runLength_append (fun c hc => decide_eq_true (hline c hc)) hend
  have hwidth : Pattern.lineComment.width? ('/' :: '/' :: (body ++ rest)) =
      some (2 + body.length) := by
    rw [Pattern.width?, hrun]
  have hfirst : Lexeme.first '/' ('/' :: (body ++ rest)) = ⟨2 + body.length, .nothing⟩ := by
    simp only [Lexeme.first, Rule.first?, Rule.table, List.findSome?_cons,
      Lexeme.width?_eq_none (p := .blanks) _ (by decide : Pattern.blanks.begins '/' = false),
      hwidth, Option.map_none, Option.map_some, Lexeme.ofRule]
  have hsplit : '/' :: '/' :: (body ++ rest) = ('/' :: '/' :: body) ++ rest := rfl
  rw [List.cons_append, List.cons_append,
    scan_append hsplit (List.cons_ne_nil _ _) (by rw [hfirst, Nat.add_comm]; rfl), hfirst]
  rfl

/-- The end of a comment does not depend on what follows. -/
theorem CommentRest.commentWidth?_eq {depth : Nat} {text : List Char} (h : CommentRest depth text)
    (rest : List Char) {n : Nat} (hn : depth = n + 1) :
    commentWidth? n (text ++ rest) = some text.length := by
  induction h generalizing n with
  | done => cases hn
  | @opening depth cs more ih =>
    cases hn
    have hmore : commentWidth? (depth + 1) (cs ++ rest) = some cs.length := ih rfl
    rw [List.cons_append, List.cons_append, commentWidth?, hmore, Option.map_some, Nat.add_comm]
    rfl
  | @closing depth cs more ih =>
    cases hn
    cases depth with
    | zero =>
      cases more
      rfl
    | succ n =>
      rw [List.cons_append, List.cons_append, commentWidth?, ih rfl, Option.map_some, Nat.add_comm]
      rfl
  | @other depth c cs opens closes more ih =>
    cases hn
    -- the comment goes on, so the next character belongs to it
    have hnext : ∀ {d : Char} {ds}, cs ++ rest = d :: ds → ∃ es, cs = d :: es := by
      intro d ds heq
      cases cs with
      | nil => cases more
      | cons e es => exact ⟨es, by rw [(List.cons.inj heq).1]⟩
    rw [List.cons_append, commentWidth?.eq_4, ih rfl, Option.map_some, Nat.add_comm]
    · rfl
    · rintro ds rfl heq
      obtain ⟨es, rfl⟩ := hnext heq
      exact opens es rfl
    · rintro ds - rfl heq
      obtain ⟨es, rfl⟩ := hnext heq
      exact closes es rfl
    · rintro m ds - rfl heq
      obtain ⟨es, rfl⟩ := hnext heq
      exact closes es rfl

/-- A complete block comment is passed over. -/
theorem scan_blockComment {body : List Char} (h : CommentRest 1 body) (p : Position)
    (rest : List Char) :
    scan p ('/' :: '*' :: body ++ rest) = scan (p.advance ('/' :: '*' :: body)) rest := by
  have hfirst : Lexeme.first '/' ('*' :: (body ++ rest)) = ⟨2 + body.length, .nothing⟩ := by
    rw [Lexeme.first_comment]
    simp only [Lexeme.ofRule, List.drop_succ_cons, List.drop_zero, h.commentWidth?_eq rest rfl]
  have hsplit : '/' :: '*' :: (body ++ rest) = ('/' :: '*' :: body) ++ rest := rfl
  rw [List.cons_append, List.cons_append,
    scan_append hsplit (List.cons_ne_nil _ _) (by rw [hfirst, Nat.add_comm]; rfl), hfirst]
  rfl

/-- **What separates tokens is passed over.** -/
theorem scan_skipped {text rest : List Char} (h : Skipped rest text) (p : Position) :
    scan p (text ++ rest) = scan (p.advance text) rest := by
  induction h generalizing p with
  | nil => rfl
  | blank hblank _ ih => rw [List.cons_append, scan_blank hblank, ih]; rfl
  | lineComment inLine lineEnd _ ih =>
    rw [List.append_assoc, scan_lineComment inLine lineEnd, ih, Position.advance_append]
  | blockComment complete _ ih =>
    rw [List.append_assoc, scan_blockComment complete, ih, Position.advance_append]

/-! ## Whole texts -/

/-- What a token says, wherever it stands. -/
def Token.word (t : Token) : TokenKind × String := (t.kind, t.value)

/-- Wherever the text `cs` stands, scanning finds tokens that say `words`, and no error. -/
def ScansAs (cs : List Char) (words : List (TokenKind × String)) : Prop :=
  ∀ pre, ∃ tokens : List Token, scan (Position.start.advance pre) cs = tokens.map .token ∧
    tokens.map Token.word = words

namespace ScansAs

variable {rest : List Char} {words : List (TokenKind × String)}

theorem nil : ScansAs [] [] := by
  intro pre
  rw [scan]
  exact ⟨[], rfl, rfl⟩

theorem skip {text : List Char} (h : Skipped rest text) (more : ScansAs rest words) :
    ScansAs (text ++ rest) words := by
  intro pre
  rw [scan_skipped h, ← Position.advance_append]
  exact more (pre ++ text)

theorem token {kind : TokenKind} {value : List Char} (h : Lexed kind value)
    (hends : ∀ d, rest.head? = some d → ¬ Prolongs (spelled kind value) d)
    (more : ScansAs rest words) :
    ScansAs (spelled kind value ++ rest) ((kind, String.ofList value) :: words) := by
  intro pre
  obtain ⟨tokens, hscan, hwords⟩ := more (pre ++ spelled kind value)
  refine ⟨_ :: tokens, by rw [scan_lexed h hends, hscan]; rfl, ?_⟩
  rw [List.map_cons, hwords]
  rfl

end ScansAs

/-- A source in which scanning finds no error has the tokens that it finds. -/
theorem tokenize_of_scansAs {source : String} {words : List (TokenKind × String)}
    (h : ScansAs source.toList words) : ∃ tokens, tokenize source = .ok tokens ∧
      tokens.map Token.word = words ++ [(.endOfInput, "")] := by
  obtain ⟨tokens, hscan, hwords⟩ := h []
  have hstart : Position.start.advance [] = .start := rfl
  rw [hstart] at hscan
  refine ⟨_, tokenize_of_scan hscan, ?_⟩
  rw [List.map_append, hwords]
  rfl

end TypedImp
