import TypedImp.Proofs.Token.Rescanning

/-!
# Lexemes read back

The tokens of a source can be written down again with other separators: blanks and complete block
comments instead of whatever stood there.  Scanning the new text finds the same tokens.  Two things
are used.  A separator starts with a blank, and a blank prolongs no token; and a separator is passed
over as a whole, whatever token follows.  So it does no harm that strings hold what looks like
comments, or that a slash or an asterisk stands next to a comment.

* `Filler`, `Separator`, `Separated`: separators, and lexemes written with separators between them.
* `scansAs_of_separated`: scanning lexemes that are written in this way.
* `lexemes_read_back`: **the tokens of a source, written down and scanned again**.
-/

namespace TypedImp

/-- Blanks and complete block comments. -/
inductive Filler : List Char → Prop
  | nil : Filler []
  | blank {c : Char} {cs : List Char} (blank : isBlank c = true) (more : Filler cs) :
    Filler (c :: cs)
  | comment {body cs : List Char} (complete : CommentRest 1 body) (more : Filler cs) :
    Filler ('/' :: '*' :: body ++ cs)

/-- What may stand between two lexemes: a blank, and then blanks and complete block comments. -/
inductive Separator : List Char → Prop
  | intro {b : Char} {cs : List Char} (blank : isBlank b = true) (more : Filler cs) :
    Separator (b :: cs)

/-- How a token is written. -/
def Token.lexeme (t : Token) : List Char := spelled t.kind t.value.toList

/-- The lexemes are written one after the other, with separators between them. -/
inductive Separated : (lexemes : List (List Char)) → List Char → Prop
  | nil : Separated [] []
  | last {lexeme : List Char} : Separated [lexeme] lexeme
  | cons {lexeme between text : List Char} {lexemes : List (List Char)}
    (separator : Separator between) (more : Separated lexemes text) :
    Separated (lexeme :: lexemes) (lexeme ++ (between ++ text))

theorem Filler.skipped {text : List Char} (h : Filler text) (rest : List Char) :
    Skipped rest text := by
  induction h with
  | nil => exact .nil
  | blank hblank _ ih => exact .blank hblank ih
  | comment complete _ ih => exact .blockComment complete ih

theorem Separator.skipped {text : List Char} (h : Separator text) (rest : List Char) :
    Skipped rest text := by
  cases h with
  | intro blank more => exact .blank blank (more.skipped rest)

/-- A separator begins with a character that prolongs no token. -/
theorem Separator.standsApart_head {text : List Char} (h : Separator text) (rest : List Char) :
    ∀ d, (text ++ rest).head? = some d → standsApart d = true := by
  cases h with
  | intro blank more =>
    intro d hd
    cases hd
    exact standsApart_of_isBlank blank

/-- Lexemes of tokens that are written with separators are found again. -/
theorem scansAs_of_separated {tokens : List Token} (h : ∀ t ∈ tokens, Lexed t.kind t.value.toList)
    {text : List Char} (hseparated : Separated (tokens.map Token.lexeme) text) :
    ScansAs text (tokens.map Token.word) := by
  induction tokens generalizing text with
  | nil =>
    cases hseparated
    exact .nil
  | cons t ts ih =>
    obtain ⟨ht, hts⟩ := List.forall_mem_cons.mp h
    have hword : t.word = (t.kind, String.ofList t.value.toList) := by
      rw [Token.word, String.ofList_toList]
    rw [List.map_cons] at hseparated ⊢
    rw [hword]
    generalize hlexemes : ts.map Token.lexeme = lexemes at hseparated
    cases hseparated with
    | last =>
      obtain rfl := List.map_eq_nil_iff.mp hlexemes
      have hscans : ScansAs (t.lexeme ++ []) [(t.kind, String.ofList t.value.toList)] :=
        .token ht nofun .nil
      rwa [List.append_nil] at hscans
    | cons separator more =>
      subst hlexemes
      refine .token ht (fun d hd => ?_) (.skip (separator.skipped _) (ih hts more))
      exact ht.not_prolongs_of_standsApart (separator.standsApart_head _ d hd)

/-- **Lexemes read back.**  Take the tokens of a source, without the one that marks the end, and
write them down with any separators between them.  Scanning the result succeeds, and finds tokens of
the same kinds with the same values. -/
theorem lexemes_read_back {source : String} {tokens : List Token}
    (h : tokenize source = .ok tokens) {text : String}
    (hseparated : Separated ((tokens.filter (·.kind ≠ .endOfInput)).map Token.lexeme) text.toList) :
    ∃ tokens', tokenize text = .ok tokens' ∧
      tokens'.map Token.word = tokens.map Token.word := by
  obtain ⟨-, rfl⟩ := tokenize_eq_ok_iff.mp h
  have hcut : Cut [] source.toList (scan .start source.toList) := cut_scan [] source.toList
  have hlexed := hcut.lexed
  generalize (scan .start source.toList).filterMap Item.token? = found at hseparated hlexed ⊢
  have hfound : found.filter (·.kind ≠ .endOfInput) = found :=
    List.filter_eq_self.mpr fun t ht => decide_eq_true (hlexed t ht).ne_end
  have hvisible : (found ++ [Token.endAt (Position.start.advance source.toList)]).filter
      (·.kind ≠ .endOfInput) = found := by
    rw [List.filter_append, hfound]
    exact List.append_nil found
  rw [hvisible] at hseparated
  obtain ⟨tokens', htokens', hwords⟩ := tokenize_of_scansAs (scansAs_of_separated hlexed hseparated)
  refine ⟨tokens', htokens', ?_⟩
  rw [hwords, List.map_append]
  rfl

/-- A quotient of a string that looks like a comment. -/
def commentLikeText : String := "x:=\"/*\"/2"

/-- The same lexemes, among them a slash next to a comment and a comment inside of a comment. -/
def commentedText : String := "x /* /**/ */:=\t\"/*\"\n/ /**/2"

/-- The string keeps its text, and the comments are passed over. -/
theorem commentedText_reads_back : ∃ tokens, tokenize commentLikeText = .ok tokens ∧
    Separated ((tokens.filter (·.kind ≠ .endOfInput)).map Token.lexeme) commentedText.toList ∧
      ∃ tokens', tokenize commentedText = .ok tokens' ∧
        tokens'.map Token.word = tokens.map Token.word := by
  have hsome : (tokenize commentLikeText).toOption.isSome := by decide +kernel
  have hlexemes : (((tokenize commentLikeText).toOption.getD []).filter
      (·.kind ≠ .endOfInput)).map Token.lexeme =
        [['x'], [':', '='], ['"', '/', '*', '"'], ['/'], ['2']] := by
    decide +kernel
  have htext : commentedText.toList =
      ['x'] ++ ((' ' :: ('/' :: '*' :: [' ', '/', '*', '*', '/', ' ', '*', '/'] ++ [])) ++
        ([':', '='] ++ (['\t'] ++ (['"', '/', '*', '"'] ++ (['\n'] ++
          (['/'] ++ ((' ' :: ('/' :: '*' :: ['*', '/'] ++ [])) ++ ['2']))))))) := by
    decide +kernel
  have hnested : CommentRest 1 [' ', '/', '*', '*', '/', ' ', '*', '/'] :=
    .other nofun nofun (.opening (.closing (.other nofun nofun (.closing .done))))
  have hseparated : Separated [['x'], [':', '='], ['"', '/', '*', '"'], ['/'], ['2']]
      commentedText.toList := by
    rw [htext]
    refine .cons (.intro rfl (.comment hnested .nil)) ?_
    refine .cons (.intro rfl .nil) ?_
    refine .cons (.intro rfl .nil) ?_
    exact .cons (.intro rfl (.comment (.closing .done) .nil)) .last
  cases h : tokenize commentLikeText with
  | error errors => rw [h] at hsome; cases hsome
  | ok tokens =>
    rw [h] at hlexemes
    rw [← hlexemes] at hseparated
    exact ⟨tokens, rfl, hseparated, lexemes_read_back h hseparated⟩

end TypedImp
