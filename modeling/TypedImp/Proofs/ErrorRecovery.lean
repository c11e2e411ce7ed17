import TypedImp.Proofs.Guarded.Scanning
import TypedImp.Proofs.Token.Rescanning

/-!
# Scanning goes on where an error ends

Scanning does not stop at a bad stretch of text.  The stretch is noted and passed over, and scanning
goes on behind it.  Here it is shown that nothing is lost in this way and nothing is made up: with
blanks in place of all the stretches that were passed over, the same text has no errors any more,
and its tokens are those that were found next to the errors.

## What is passed over

Most errors show the whole stretch.  A comment without an end shows only its opening, but takes in
the rest of the text.

## Why blanks make no difference

Two things depend on what follows them.  A token may be prolonged by the next character, but no
blank does so.  A line comment ends where its line ends, and a bad stretch in the place of the line
break would now make the comment longer; but no bad stretch begins with a line break.

* `Error.hides`, `blankedOut`: text that was passed over, with blanks in its place.
* `Agrees`, `Rescans`: a text that is scanned as another one, with a law for each step of a scan.
* `Course.rescans`: the steps put together.
* `recovery_loses_nothing`: **what is found next to errors is what is found without them**.
-/

namespace TypedImp

/-! ## Blanks in place of text -/

/-- Whether the character at an offset was passed over on account of the error. -/
def Error.hides (e : Error) (offset : Nat) : Bool :=
  e.span.start.offset ≤ offset ∧ (e.cause = .unterminatedComment ∨ offset < e.span.stop.offset)

/-- The text that starts at an offset, with a blank in place of every hidden character. -/
def blankOut (hidden : Nat → Bool) : (offset : Nat) → List Char → List Char
  | _, [] => []
  | offset, c :: cs =>
    (if hidden offset then ' ' else c) :: blankOut hidden (offset + c.utf8Size) cs

/-- A source, with a blank in place of every character that was passed over for an error. -/
def blankedOut (source : String) (errors : List Error) : String :=
  String.ofList (blankOut (fun offset => errors.any (·.hides offset)) 0 source.toList)

/-- An error that shows a whole stretch of text hides this stretch. -/
theorem Error.hides_ofText {cause : Cause} (h : cause ≠ .unterminatedComment) (pre text : List Char)
    (offset : Nat) (hle : byteCount pre ≤ offset) :
    hides ⟨cause, .ofText pre text⟩ offset = decide (offset < byteCount (pre ++ text)) := by
  simp [hides, h, hle]

theorem byteCount_le_append (cs ds : List Char) : byteCount cs ≤ byteCount (cs ++ ds) := by
  rw [byteCount_append]
  exact Nat.le_add_right _ _

section

variable (hidden : Nat → Bool)

theorem blankOut_append (offset : Nat) (cs ds : List Char) :
    blankOut hidden offset (cs ++ ds) =
      blankOut hidden offset cs ++ blankOut hidden (offset + byteCount cs) ds := by
  induction cs generalizing offset with
  | nil => rfl
  | cons c cs ih => rw [List.cons_append, blankOut, blankOut, ih, byteCount, Nat.add_assoc]; rfl

variable {hidden} {offset : Nat} {cs : List Char}

/-- Where nothing is hidden the text stays, and where all is hidden there are only blanks. -/
theorem blankOut_eq_map {b : Bool}
    (h : ∀ n, offset ≤ n → n < offset + byteCount cs → hidden n = b) :
    blankOut hidden offset cs = cs.map fun c => if b then ' ' else c := by
  induction cs generalizing offset with
  | nil => rfl
  | cons c cs ih =>
    have hpos := Char.utf8Size_pos c
    rw [byteCount] at h
    rw [blankOut, h offset (Nat.le_refl _) (by omega), ih fun n _ _ => h n (by omega) (by omega),
      List.map_cons]

theorem blankOut_of_shown
    (h : ∀ n, offset ≤ n → n < offset + byteCount cs → hidden n = false) :
    blankOut hidden offset cs = cs :=
  (blankOut_eq_map h).trans (List.map_id cs)

theorem blankOut_of_hidden
    (h : ∀ n, offset ≤ n → n < offset + byteCount cs → hidden n = true) :
    blankOut hidden offset cs = List.replicate cs.length ' ' :=
  (blankOut_eq_map h).trans List.map_const'

end

/-! ## What follows -/

/-- A text begins as another one does, or with a blank where the other one goes on with its line. -/
def Agrees (cs cs' : List Char) : Prop :=
  cs'.head? = cs.head? ∨ ∃ c, cs.head? = some c ∧ c ≠ '\n' ∧ cs'.head? = some ' '

theorem Agrees.append {text : List Char} (h : text ≠ []) (rest rest' : List Char) :
    Agrees (text ++ rest) (text ++ rest') := by
  obtain ⟨c, cs, rfl⟩ := List.exists_cons_of_ne_nil h
  exact .inl rfl

theorem Agrees.blanks {c : Char} (h : c ≠ '\n') (cs cs' : List Char) :
    Agrees (c :: cs) (' ' :: cs') :=
  .inr ⟨c, rfl, h, rfl⟩

/-- A line ends in front of both texts. -/
theorem Agrees.stops {cs cs' : List Char} (h : Agrees cs cs') (hend : Stops (· ≠ '\n') cs) :
    Stops (· ≠ '\n') cs' := by
  intro d hd
  rcases h with hsame | ⟨c, hc, hne, -⟩
  · exact hend d (hsame ▸ hd)
  · exact absurd (of_decide_eq_false (hend c hc)) (not_not_intro hne)

/-- A token that ends in front of the one text ends in front of the other. -/
theorem Agrees.not_prolongs {cs cs' : List Char} (h : Agrees cs cs') {kind : TokenKind}
    {value : List Char} (lexed : Lexed kind value)
    (hends : ∀ d, cs.head? = some d → ¬ Prolongs (spelled kind value) d) :
    ∀ d, cs'.head? = some d → ¬ Prolongs (spelled kind value) d := by
  intro d hd
  rcases h with hsame | ⟨-, -, -, hblank⟩
  · exact hends d (hsame ▸ hd)
  · obtain rfl : ' ' = d := Option.some.inj (hblank.symm.trans hd)
    exact lexed.not_prolongs_of_standsApart (standsApart_of_isBlank rfl)

/-- What is passed over in front of the one text is passed over in front of the other. -/
theorem Agrees.skipped {rest rest' : List Char} (h : Agrees rest rest') {text : List Char}
    (hskipped : Skipped rest text) : Skipped rest' text := by
  induction hskipped with
  | nil => exact .nil
  | blank hblank _ ih => exact .blank hblank ih
  | @lineComment body cs inLine lineEnd _ ih =>
    refine .lineComment inLine ?_ ih
    cases cs with
    | nil => exact h.stops lineEnd
    | cons c cs => exact (Agrees.append (List.cons_ne_nil c cs) rest rest').stops lineEnd
  | blockComment complete _ ih => exact .blockComment complete ih

/-! ## One step -/

/-- Scanning the text `cs'` finds the tokens among the items and no error, and where `cs` follows a
token or a comment, `cs'` may follow it as well. -/
structure Rescans (cs cs' : List Char) (items : List Item) : Prop where
  scans : ScansAs cs' ((items.filterMap Item.token?).map Token.word)
  agrees : Agrees cs cs'

namespace Rescans

variable {rest rest' : List Char} {items : List Item}

theorem done : Rescans [] [] [] := ⟨.nil, .inl rfl⟩

theorem skip (h : Rescans rest rest' items) {text : List Char} (visible : text ≠ [])
    (skipped : Skipped rest text) : Rescans (text ++ rest) (text ++ rest') items :=
  ⟨h.scans.skip (h.agrees.skipped skipped), .append visible rest rest'⟩

theorem token (h : Rescans rest rest' items) {kind : TokenKind} {value : List Char}
    (lexed : Lexed kind value)
    (ends : ∀ d, rest.head? = some d → ¬ Prolongs (spelled kind value) d) (span : Span) :
    Rescans (spelled kind value ++ rest) (spelled kind value ++ rest')
      (.token ⟨kind, String.ofList value, span⟩ :: items) := by
  obtain ⟨-, -, -, -, visible, -⟩ := lexed.exists_rule
  exact ⟨h.scans.token lexed (h.agrees.not_prolongs lexed ends), .append visible rest rest'⟩

/-- Blanks in place of text that does not begin with a line break. -/
theorem fault (h : Rescans rest rest' items) {c : Char} (notBreak : c ≠ '\n') (cs : List Char)
    (e : Error) :
    Rescans (c :: cs ++ rest) (List.replicate (c :: cs).length ' ' ++ rest')
      (.fault e :: items) := by
  have hblanks : ∀ d ∈ List.replicate (c :: cs).length ' ', isBlank d = true := by
    intro d hd
    rw [List.eq_of_mem_replicate hd]
    rfl
  exact ⟨h.scans.skip (.of_blanks hblanks), .blanks notBreak _ _⟩

end Rescans

/-! ## All steps -/

theorem Item.errors_fault (e : Error) (items : List Item) :
    (fault e :: items).filterMap error? = e :: items.filterMap error? := rfl

/-- No bad stretch begins with a line break. -/
theorem Bad.exists_cons {text : List Char} {cause : Cause} (h : Bad text cause) :
    ∃ c cs, text = c :: cs ∧ c ≠ '\n' := by
  cases h with
  | @unrecognised c notBlank =>
    refine ⟨c, [], rfl, ?_⟩
    rintro rfl
    cases notBlank
  | @unclosedString body => exact ⟨'"', body, rfl, by decide⟩

/-- A bad stretch is shown as a whole. -/
theorem Bad.cause_ne {text : List Char} {cause : Cause} (h : Bad text cause) :
    cause ≠ .unterminatedComment := by
  cases h <;> nofun

namespace Course

variable {pre cs : List Char} {items : List Item}

/-- Errors hide nothing in front of the text that they are found in. -/
theorem not_hides (h : Course pre cs items) {offset : Nat} (hlt : offset < byteCount pre) :
    (items.filterMap Item.error?).any (·.hides offset) = false := by
  rw [List.any_eq_false]
  intro e he
  obtain ⟨item, hitem, hfault⟩ := List.mem_filterMap.mp he
  have hle := h.cut.le_span_start item hitem
  rw [← Item.span_of_error? hfault] at hle
  simp only [Error.hides, decide_eq_true_eq]
  omega

/-- What stands in front of the rest of a text and is no error keeps its place. -/
theorem blankOut_append_of_shown {text rest : List Char} (more : Course (pre ++ text) rest items)
    {hidden : Nat → Bool} (hhidden : ∀ offset, byteCount pre ≤ offset →
      hidden offset = (items.filterMap Item.error?).any (·.hides offset)) :
    blankOut hidden (byteCount pre) (text ++ rest) =
      text ++ blankOut hidden (byteCount (pre ++ text)) rest := by
  have hshown : ∀ n, byteCount pre ≤ n → n < byteCount pre + byteCount text →
      hidden n = false := by
    intro n hle hlt
    rw [← byteCount_append] at hlt
    exact (hhidden n hle).trans (more.not_hides hlt)
  rw [blankOut_append, blankOut_of_shown hshown, byteCount_append]

/-- **Scanning goes on where an error ends.**  With blanks in place of what was passed over, a text
is scanned without errors and with the same tokens. -/
theorem rescans (h : Course pre cs items) {hidden : Nat → Bool}
    (hhidden : ∀ offset, byteCount pre ≤ offset →
      hidden offset = (items.filterMap Item.error?).any (·.hides offset)) :
    Rescans cs (blankOut hidden (byteCount pre) cs) items := by
  induction h with
  | done => exact .done
  | @skip pre text rest items visible skipped more ih =>
    rw [more.blankOut_append_of_shown hhidden]
    have hrest := ih fun offset hle => hhidden offset ((byteCount_le_append pre text).trans hle)
    exact hrest.skip visible skipped
  | @token pre rest value kind items lexed ends more ih =>
    rw [more.blankOut_append_of_shown hhidden]
    have hrest := ih fun offset hle => hhidden offset ((byteCount_le_append pre _).trans hle)
    exact hrest.token lexed ends _
  | @fault pre text rest cause items bad more ih =>
    have hhides := Error.hides_ofText bad.cause_ne pre text
    have hhidden' : ∀ offset, byteCount pre ≤ offset → hidden offset =
        (decide (offset < byteCount (pre ++ text)) ||
          (items.filterMap Item.error?).any (·.hides offset)) := by
      intro offset hle
      rw [hhidden offset hle, Item.errors_fault, List.any_cons, hhides offset hle]
    have hrest : Rescans rest (blankOut hidden (byteCount (pre ++ text)) rest) items := by
      refine ih fun offset hle => ?_
      rw [hhidden' offset ((byteCount_le_append pre text).trans hle),
        decide_eq_false (Nat.not_lt.mpr hle), Bool.false_or]
    have hblanks : blankOut hidden (byteCount pre) text = List.replicate text.length ' ' := by
      refine blankOut_of_hidden fun n hle hlt => ?_
      rw [← byteCount_append] at hlt
      rw [hhidden' n hle, decide_eq_true hlt, Bool.true_or]
    obtain ⟨c, cs, rfl, notBreak⟩ := bad.exists_cons
    rw [blankOut_append, hblanks, ← byteCount_append]
    exact hrest.fault notBreak cs _
  | @unclosedComment pre body =>
    have hblanks : blankOut hidden (byteCount pre) ('/' :: '*' :: body) =
        List.replicate ('/' :: '*' :: body).length ' ' := by
      refine blankOut_of_hidden fun n hle _ => ?_
      rw [hhidden n hle]
      simp [Item.error?, Error.hides, hle]
    have hfault := Rescans.done.fault (by decide : '/' ≠ '\n') ('*' :: body)
      ⟨.unterminatedComment, .ofText pre ['/', '*']⟩
    rw [hblanks]
    rwa [List.append_nil, List.append_nil] at hfault

/-- What the errors of a scan are about. -/
theorem cause_of_error (h : Course pre cs items) : ∀ e ∈ items.filterMap Item.error?,
    (∃ token, e.cause = .unrecognisedToken token) ∨ e.cause = .unterminatedString ∨
      e.cause = .unterminatedComment := by
  induction h with
  | done => nofun
  | skip _ _ _ ih | token _ _ _ ih => exact ih
  | fault bad _ ih =>
    refine List.forall_mem_cons.mpr ⟨?_, ih⟩
    cases bad with
    | unrecognised => exact .inl ⟨_, rfl⟩
    | unclosedString => exact .inr (.inl rfl)
  | unclosedComment => exact List.forall_mem_cons.mpr ⟨.inr (.inr rfl), nofun⟩

/-- Only the last error is about a comment. -/
theorem cause_ne_of_mem_dropLast (h : Course pre cs items) :
    ∀ e ∈ (items.filterMap Item.error?).dropLast, e.cause ≠ .unterminatedComment := by
  induction h with
  | done => nofun
  | skip _ _ _ ih | token _ _ _ ih => exact ih
  | @fault pre text rest cause items bad _ ih =>
    rw [Item.errors_fault]
    cases herrors : items.filterMap Item.error? with
    | nil => nofun
    | cons e es =>
      rw [herrors] at ih
      rw [List.dropLast_cons_cons]
      exact List.forall_mem_cons.mpr ⟨bad.cause_ne, ih⟩
  | unclosedComment => nofun

end Course

/-! ## Whole sources -/

/-- Without what was passed over for errors, a source is scanned as before. -/
theorem scansAs_blankedOut (source : String) :
    ScansAs (blankedOut source ((scan .start source.toList).filterMap Item.error?)).toList
      (((scan .start source.toList).filterMap Item.token?).map Token.word) := by
  have hcourse : Course [] source.toList (scan .start source.toList) :=
    course_scan [] source.toList
  rw [blankedOut, String.toList_ofList]
  exact (hcourse.rescans fun _ _ => rfl).scans

/-- **Recovery hides nothing and loses nothing.**  Take a source that has errors.  They are about
characters, string literals and comments, and at most the last one is about a comment.  The loop
that looks for tokens reaches the end of the source nevertheless, with some tokens next to the
errors.  Put blanks in place of all characters that were passed over for an error: scanning the
result succeeds and finds these tokens, with the same kinds and the same values. -/
theorem recovery_loses_nothing {source : String} {errors : List Error}
    (h : tokenize source = .error errors) :
    (∀ e ∈ errors, (∃ token, e.cause = .unrecognisedToken token) ∨
      e.cause = .unterminatedString ∨ e.cause = .unterminatedComment) ∧
    (∀ e ∈ errors.dropLast, e.cause ≠ .unterminatedComment) ∧
    ∃ (lexer : Lexer) (tokens : List Token),
      Lexer.loop? source.length (.start source.toList) = some lexer ∧
      lexer.remainder? = some [] ∧ lexer.errors = errors ∧
      tokenize (blankedOut source errors) = .ok tokens ∧
      tokens.map Token.word = (lexer.tokens ++ [Token.endAt lexer.place]).map Token.word := by
  obtain ⟨rfl, -⟩ := tokenize_eq_error_iff.mp h
  have hcourse : Course [] source.toList (scan .start source.toList) :=
    course_scan [] source.toList
  have hloop := Lexer.loop?_behind source.length [] source.toList [] [] (String.length_toList).le
  obtain ⟨tokens, htokens, hwords⟩ := tokenize_of_scansAs (scansAs_blankedOut source)
  refine ⟨hcourse.cause_of_error, hcourse.cause_ne_of_mem_dropLast, _, tokens, hloop,
    Lexer.remainder?_behind _ _ _ _, rfl, htokens, ?_⟩
  rw [hwords, List.map_append]
  rfl

/-- A source with an error of every kind. -/
def faultyText : String := "x@:=\"a b\n1é/ 2;/* /* */ y"

/-- The same source, with blanks for what is wrong with it. -/
def mendedText : String := "x :=    \n1 / 2;          "

/-- The tokens next to the four errors are those of the mended source. -/
theorem mendedText_recovered : ∃ errors, tokenize faultyText = .error errors ∧
    errors.length = 4 ∧ blankedOut faultyText errors = mendedText ∧
      ∃ (lexer : Lexer) (tokens : List Token),
        Lexer.loop? faultyText.length (.start faultyText.toList) = some lexer ∧
        lexer.tokens.length = 6 ∧ tokenize mendedText = .ok tokens ∧
        tokens.map Token.word = (lexer.tokens ++ [Token.endAt lexer.place]).map Token.word := by
  have herrors : (match tokenize faultyText with
      | .error errors => some (errors.length, blankedOut faultyText errors)
      | .ok _ => none) = some (4, mendedText) := by
    decide +kernel
  have htokens : (Lexer.loop? faultyText.length (.start faultyText.toList)).map
      (·.tokens.length) = some 6 := by
    decide +kernel
  cases h : tokenize faultyText with
  | ok tokens => rw [h] at herrors; cases herrors
  | error errors =>
    rw [h] at herrors
    obtain ⟨hlength, hmended⟩ := Prod.mk.inj (Option.some.inj herrors)
    obtain ⟨-, -, lexer, tokens, hloop, -, -, hok, hwords⟩ := recovery_loses_nothing h
    rw [hloop] at htokens
    exact ⟨errors, rfl, hlength, hmended, lexer, tokens, hloop, Option.some.inj htokens,
      hmended ▸ hok, hwords⟩

end TypedImp
