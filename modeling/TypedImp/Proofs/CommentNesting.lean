import TypedImp.Proofs.Guarded.Scanning

/-!
# Nested comments are matched exactly

A block comment may hold block comments.  Its end is found by a counter of open levels while the
text is passed character by character, or byte by byte.  Here the text of a comment is first cut
into pieces, which never overlap: an opening, a closing, or one other character.  The comment is
then the shortest beginning in which as many levels are closed as are opened, whatever the depth and
whatever stands between the delimiters.

## How the counter is compared

The counter says how many levels are open in front of the text that is left.  `Open depth ps` says
that behind the pieces `ps` some of them, or of those opened since, are still open.  Passing one
piece moves both sides alike, which is all that the induction needs.

* `CommentPiece`, `pieces`, `written_pieces`: a text in pieces.
* `commentWidth?_eq_some`, `commentWidth?_eq_none`: where the counter reaches zero, and when it
  never does.
* `nested_comments_are_matched`: **what is passed and noted down for a block comment**.
-/

namespace TypedImp

/-! ## Pieces -/

/-- A piece of the text of a comment. -/
inductive CommentPiece where
  /-- A slash and an asterisk. -/
  | opening
  /-- An asterisk and a slash. -/
  | closing
  /-- Any other character. -/
  | other (c : Char)
deriving DecidableEq, Repr

/-- The characters of a piece. -/
def CommentPiece.text : CommentPiece → List Char
  | opening => ['/', '*']
  | closing => ['*', '/']
  | other c => [c]

/-- A text in pieces, read from the left.  A piece of two characters is preferred. -/
def pieces : List Char → List CommentPiece
  | '/' :: '*' :: cs => .opening :: pieces cs
  | '*' :: '/' :: cs => .closing :: pieces cs
  | c :: cs => .other c :: pieces cs
  | [] => []

/-- The text of some pieces. -/
def written (ps : List CommentPiece) : List Char := ps.flatMap CommentPiece.text

theorem written_cons (p : CommentPiece) (ps : List CommentPiece) :
    written (p :: ps) = p.text ++ written ps :=
  List.flatMap_cons

theorem written_append (ps qs : List CommentPiece) :
    written (ps ++ qs) = written ps ++ written qs :=
  List.flatMap_append

/-- The pieces of a text are the text. -/
theorem written_pieces (cs : List Char) : written (pieces cs) = cs := by
  fun_induction pieces cs with
  | case1 cs ih | case2 cs ih | case3 c cs _ _ ih => rw [written_cons, ih]; rfl
  | case4 => rfl

/-- Pieces never overlap: the asterisk of an opening closes nothing. -/
example : pieces "/*/*/".toList = [.opening, .opening, .other '/'] := by decide

/-! ## Open levels -/

/-- With `depth` levels open in front of the pieces, there is an open level behind them. -/
def Open (depth : Nat) (ps : List CommentPiece) : Prop :=
  ps.count .closing < ps.count .opening + depth

theorem open_nil {depth : Nat} (h : 0 < depth) : Open depth [] := by
  simpa [Open] using h

/-- Pieces are counted one by one. -/
theorem count_cons_piece (a p : CommentPiece) (ps : List CommentPiece) :
    (p :: ps).count a = [p].count a + ps.count a := by
  rw [← List.singleton_append, List.count_append]

/-- One piece moves the number of open levels. -/
theorem open_cons_iff {p : CommentPiece} {depth depth' : Nat}
    (h : depth' + [p].count .closing = depth + [p].count .opening) (ps : List CommentPiece) :
    Open depth (p :: ps) ↔ Open depth' ps := by
  have hclosing := count_cons_piece .closing p ps
  have hopening := count_cons_piece .opening p ps
  unfold Open
  omega

/-- With `depth` levels open in front of the pieces, the last piece closes the last one of them. -/
structure Closes (depth : Nat) (ps : List CommentPiece) : Prop where
  balanced : ps.count .closing = ps.count .opening + depth
  shortest : ∀ qs, qs <+: ps → qs ≠ ps → Open depth qs

theorem Closes.cons {p : CommentPiece} {ps : List CommentPiece} {depth depth' : Nat}
    (h : Closes depth' ps) (hpos : 0 < depth)
    (hdepth : depth' + [p].count .closing = depth + [p].count .opening) :
    Closes depth (p :: ps) := by
  constructor
  · have hclosing := count_cons_piece .closing p ps
    have hopening := count_cons_piece .opening p ps
    have hbalanced := h.balanced
    omega
  · intro qs hprefix hne
    rcases List.prefix_cons_iff.mp hprefix with rfl | ⟨qs, rfl, hqs⟩
    · exact open_nil hpos
    · rw [open_cons_iff hdepth]
      exact h.shortest qs hqs fun heq => hne (by rw [heq])

/-- With `depth` levels open in front of the pieces, they are never all closed. -/
def StaysOpen (depth : Nat) (ps : List CommentPiece) : Prop := ∀ qs, qs <+: ps → Open depth qs

theorem StaysOpen.cons {p : CommentPiece} {ps : List CommentPiece} {depth depth' : Nat}
    (h : StaysOpen depth' ps) (hpos : 0 < depth)
    (hdepth : depth' + [p].count .closing = depth + [p].count .opening) :
    StaysOpen depth (p :: ps) := by
  intro qs hprefix
  rcases List.prefix_cons_iff.mp hprefix with rfl | ⟨qs, rfl, hqs⟩
  · exact open_nil hpos
  · rw [open_cons_iff hdepth]
    exact h qs hqs

/-! ## The counter -/

/-- A character that begins no delimiter is a piece. -/
theorem pieces_other {depth : Nat} {c : Char} {cs : List Char}
    (hopen : ∀ ds, c = '/' → cs = '*' :: ds → False)
    (hclose : ∀ ds, depth = 0 → c = '*' → cs = '/' :: ds → False)
    (hclose' : ∀ (n : Nat) ds, depth = n.succ → c = '*' → cs = '/' :: ds → False) :
    pieces (c :: cs) = .other c :: pieces cs := by
  refine pieces.eq_3 c cs hopen fun ds hc hcs => ?_
  cases depth with
  | zero => exact hclose ds rfl hc hcs
  | succ n => exact hclose' n ds rfl hc hcs

/-- Where the counter reaches zero, all levels are closed for the first time. -/
theorem commentWidth?_eq_some {depth : Nat} {cs : List Char} {width : Nat}
    (h : commentWidth? depth cs = some width) :
    ∃ ps qs, pieces cs = ps ++ qs ∧ (written ps).length = width ∧ Closes (depth + 1) ps := by
  fun_induction commentWidth? depth cs generalizing width with
  | case1 depth cs ih =>
    obtain ⟨w, hw, rfl⟩ := Option.map_eq_some_iff.mp h
    obtain ⟨ps, qs, hpieces, rfl, hcloses⟩ := ih hw
    refine ⟨.opening :: ps, qs, by rw [pieces, hpieces]; rfl, ?_, hcloses.cons (by omega) rfl⟩
    rw [written_cons, List.length_append]
    rfl
  | case2 cs =>
    cases h
    refine ⟨[.closing], pieces cs, rfl, rfl, rfl, fun qs hprefix hne => ?_⟩
    rcases List.prefix_cons_iff.mp hprefix with rfl | ⟨qs, rfl, hqs⟩
    · exact open_nil Nat.one_pos
    · exact absurd (congrArg _ (List.prefix_nil.mp hqs)) hne
  | case3 depth cs ih =>
    obtain ⟨w, hw, rfl⟩ := Option.map_eq_some_iff.mp h
    obtain ⟨ps, qs, hpieces, rfl, hcloses⟩ := ih hw
    refine ⟨.closing :: ps, qs, by rw [pieces, hpieces]; rfl, ?_, hcloses.cons (by omega) rfl⟩
    rw [written_cons, List.length_append]
    rfl
  | case4 depth c cs hopen hclose hclose' ih =>
    obtain ⟨w, hw, rfl⟩ := Option.map_eq_some_iff.mp h
    obtain ⟨ps, qs, hpieces, rfl, hcloses⟩ := ih hw
    refine ⟨.other c :: ps, qs, ?_, ?_, hcloses.cons (by omega) rfl⟩
    · rw [pieces_other hopen hclose hclose', hpieces]
      rfl
    · rw [written_cons, List.length_append]
      rfl
  | case5 => cases h

/-- Where the counter never reaches zero, some level stays open. -/
theorem commentWidth?_eq_none {depth : Nat} {cs : List Char} (h : commentWidth? depth cs = none) :
    StaysOpen (depth + 1) (pieces cs) := by
  fun_induction commentWidth? depth cs with
  | case1 depth cs ih => exact (ih (Option.map_eq_none_iff.mp h)).cons (by omega) rfl
  | case2 cs => cases h
  | case3 depth cs ih => exact (ih (Option.map_eq_none_iff.mp h)).cons (by omega) rfl
  | case4 depth c cs hopen hclose hclose' ih =>
    rw [pieces_other hopen hclose hclose']
    exact (ih (Option.map_eq_none_iff.mp h)).cons (by omega) rfl
  | case5 =>
    intro qs hprefix
    rw [List.prefix_nil.mp hprefix]
    exact open_nil (Nat.succ_pos _)

/-! ## The whole comment -/

/-- The pieces of a whole comment: they close as many levels as they open, and behind no shorter
beginning have the closings reached the openings. -/
structure IsComment (ps : List CommentPiece) : Prop where
  ne_nil : ps ≠ []
  balanced : ps.count .closing = ps.count .opening
  shortest : ∀ qs, qs <+: ps → qs ≠ [] → qs ≠ ps → qs.count .closing < qs.count .opening

/-- The opening of the comment is the level that the rest has to close. -/
theorem open_opening_iff (ps : List CommentPiece) : Open 0 (.opening :: ps) ↔ Open 1 ps :=
  open_cons_iff rfl ps

theorem Closes.isComment {ps : List CommentPiece} (h : Closes 1 ps) :
    IsComment (.opening :: ps) where
  ne_nil := List.cons_ne_nil _ _
  balanced := by
    rw [List.count_cons_self, List.count_cons_of_ne (by decide)]
    exact h.balanced
  shortest := by
    intro qs hprefix hne hproper
    rcases List.prefix_cons_iff.mp hprefix with rfl | ⟨qs, rfl, hqs⟩
    · exact absurd rfl hne
    · exact (open_opening_iff qs).mpr (h.shortest qs hqs fun heq => hproper (by rw [heq]))

theorem StaysOpen.count_lt {ps : List CommentPiece} (h : StaysOpen 1 ps) :
    ∀ qs, qs <+: .opening :: ps → qs ≠ [] → qs.count .closing < qs.count .opening := by
  intro qs hprefix hne
  rcases List.prefix_cons_iff.mp hprefix with rfl | ⟨qs, rfl, hqs⟩
  · exact absurd rfl hne
  · exact (open_opening_iff qs).mpr (h qs hqs)

/-- The scan behind a lexeme, with what was noted down for it. -/
theorem Lexer.past_append (pre text rest : List Char) (tokens : List Token) (errors : List Error)
    (found : Found) :
    past pre (text ++ rest) tokens errors ⟨text.length, found⟩ =
      (behind (pre ++ text) rest tokens errors).found
        (Item.ofLexeme? (Position.start.advance pre) (text ++ rest) ⟨text.length, found⟩) := by
  rw [past, List.take_left, List.drop_left]

/-- **Nested comments are matched exactly.**  Take any text that begins with a slash and an
asterisk, read in pieces, and any scan that stands in front of it.  If the closings reach the
openings, then what is passed is the shortest beginning with this property and nothing is noted
down.  If they never do, the whole text is passed and one error is noted down, which shows the
opening. -/
theorem nested_comments_are_matched (pre cs : List Char) (tokens : List Token)
    (errors : List Error) :
    (∃ comment rest, pieces ('/' :: '*' :: cs) = comment ++ rest ∧ IsComment comment ∧
      Lexeme.first '/' ('*' :: cs) = ⟨(written comment).length, .nothing⟩ ∧
      scan (Position.start.advance pre) ('/' :: '*' :: cs) =
        scan (Position.start.advance (pre ++ written comment)) (written rest) ∧
      (Lexer.behind pre ('/' :: '*' :: cs) tokens errors).comment? =
        some (.behind (pre ++ written comment) (written rest) tokens errors)) ∨
    ((∀ ps, ps <+: pieces ('/' :: '*' :: cs) → ps ≠ [] → ps.count .closing < ps.count .opening) ∧
      Lexeme.first '/' ('*' :: cs) =
        ⟨('/' :: '*' :: cs).length, .fault .unterminatedComment 2⟩ ∧
      scan (Position.start.advance pre) ('/' :: '*' :: cs) =
        [.fault ⟨.unterminatedComment, .ofText pre ['/', '*']⟩] ∧
      (Lexer.behind pre ('/' :: '*' :: cs) tokens errors).comment? =
        some (.behind (pre ++ '/' :: '*' :: cs) [] tokens
          (errors ++ [⟨.unterminatedComment, .ofText pre ['/', '*']⟩]))) := by
  have hfirst := Lexeme.first_comment cs
  have hbytes := Lexer.comment?_behind pre cs tokens errors
  rw [← hfirst] at hbytes
  cases hwidth : commentWidth? 0 cs with
  | some width =>
    obtain ⟨ps, qs, hpieces, rfl, hcloses⟩ := commentWidth?_eq_some hwidth
    have hwhole : pieces ('/' :: '*' :: cs) = .opening :: ps ++ qs := by
      rw [pieces, hpieces, List.cons_append]
    have hsplit : '/' :: '*' :: cs = written (.opening :: ps) ++ written qs := by
      rw [← written_append, ← hwhole, written_pieces]
    have hlexeme : Lexeme.first '/' ('*' :: cs) =
        ⟨(written (.opening :: ps)).length, .nothing⟩ := by
      rw [hfirst]
      simp only [Lexeme.ofRule, List.drop_succ_cons, List.drop_zero, hwidth, written_cons,
        List.length_append]
      rfl
    refine .inl ⟨.opening :: ps, qs, hwhole, hcloses.isComment, hlexeme, ?_, ?_⟩
    · have hne : written (.opening :: ps) ≠ [] := by simp [written_cons, CommentPiece.text]
      rw [scan_append hsplit hne (by rw [hlexeme]), hlexeme, Position.advance_append]
      rfl
    · rw [hbytes, hlexeme, hsplit, Lexer.past_append, Item.ofLexeme?, Lexer.found_none]
  | none =>
    have hlexeme : Lexeme.first '/' ('*' :: cs) =
        ⟨('/' :: '*' :: cs).length, .fault .unterminatedComment 2⟩ := by
      rw [hfirst]
      simp only [Lexeme.ofRule, List.drop_succ_cons, List.drop_zero, hwidth]
    have hitem : Item.ofLexeme? (Position.start.advance pre) ('/' :: '*' :: cs)
        (Lexeme.first '/' ('*' :: cs)) =
          some (.fault ⟨.unterminatedComment, .ofText pre ['/', '*']⟩) := by
      rw [hlexeme, Item.ofLexeme?]
      dsimp only
      rw [Lexer.ofText_take]
      rfl
    have hall : '/' :: '*' :: cs = ('/' :: '*' :: cs) ++ [] := (List.append_nil _).symm
    refine .inr ⟨(commentWidth?_eq_none hwidth).count_lt, hlexeme, ?_, ?_⟩
    · rw [scan_append hall (List.cons_ne_nil _ _) (by rw [hlexeme]), hitem, scan]
      rfl
    · rw [hbytes, Lexer.past, hitem, Lexer.found_fault, hlexeme, List.take_length, List.drop_length]
      rfl

end TypedImp
