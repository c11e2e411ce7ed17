import TypedImp.Proofs.Token.Longest

/-!
# Cutting up a text

Scanning takes one lexeme after the other up to the end of the text.  `Course` lists what can happen
on the way, together with what is noted down: nothing for what is passed over, a token with its
place, an error with its place.  Every scan has a course, so whatever is wanted of the result of a
scan is proved by induction on the course.

## Why the text before is carried along

All places are counted from the start of the source.  A course therefore knows the text `pre` in
front of it, and the place where a lexeme begins is the one that is reached by reading `pre`.

## The course and the cut

Many facts do not depend on what errors are about.  For these a course is seen as a `Cut`, in which
all errors look alike: some text is taken, and the error shows the beginning of it.

* `Course`, `course_scan`: the course of a scan.
* `Cut`, `cut_scan`: scanning cuts up the text.
* `Cut.lexed`: what the tokens carry.
* `tokenize_eq_ok_iff`, `tokenize_eq_error_iff`: when there are tokens and when there are errors.
* `tokenize_of_scan`: a source in which no error is found.
-/

namespace TypedImp

/-- The stretch that `text` covers behind `pre`. -/
def Span.ofText (pre text : List Char) : Span :=
  ⟨Position.start.advance pre, Position.start.advance (pre ++ text)⟩

/-- One step of a scan: what is noted down for the first lexeme, and the rest. -/
theorem scan_append {c : Char} {cs text rest : List Char} (hsplit : c :: cs = text ++ rest)
    (hne : text ≠ []) (hwidth : text.length = (Lexeme.first c cs).width) (p : Position) :
    scan p (c :: cs) =
      (Item.ofLexeme? p (c :: cs) (Lexeme.first c cs)).toList ++ scan (p.advance text) rest := by
  have htake : (c :: cs).take (Lexeme.first c cs).width = text := by
    rw [hsplit, ← hwidth, List.take_left]
  have hdrop : cs.drop ((Lexeme.first c cs).width - 1) = rest := by
    have hpos : 0 < text.length := List.length_pos_iff.mpr hne
    calc cs.drop ((Lexeme.first c cs).width - 1)
        = (c :: cs).drop ((Lexeme.first c cs).width - 1 + 1) := rfl
      _ = (text ++ rest).drop text.length := by rw [hsplit, ← hwidth, Nat.sub_add_cancel hpos]
      _ = rest := List.drop_left
  rw [scan]
  simp only [htake, hdrop]
  cases Item.ofLexeme? p (c :: cs) (Lexeme.first c cs) <;> rfl

/-! ## The course of a scan -/

/-- Text that no token can be made of, and what is said about it. -/
inductive Bad : List Char → Cause → Prop
  | unrecognised {c : Char} (notBlank : isBlank c = false) :
    Bad [c] (.unrecognisedToken (String.singleton c))
  | unclosedString {body : List Char} : Bad ('"' :: body) .unterminatedString

/-- What happens when the text `cs`, which stands behind `pre`, is scanned, and what is noted
down. -/
inductive Course : (pre cs : List Char) → List Item → Prop
  | done {pre : List Char} : Course pre [] []
  | skip {pre text rest : List Char} {items : List Item} (visible : text ≠ [])
    (skipped : Skipped rest text) (more : Course (pre ++ text) rest items) :
    Course pre (text ++ rest) items
  | token {pre rest value : List Char} {kind : TokenKind} {items : List Item}
    (lexed : Lexed kind value)
    (ends : ∀ d, rest.head? = some d → ¬ Prolongs (spelled kind value) d)
    (more : Course (pre ++ spelled kind value) rest items) :
    Course pre (spelled kind value ++ rest)
      (.token ⟨kind, String.ofList value, .ofText pre (spelled kind value)⟩ :: items)
  | fault {pre text rest : List Char} {cause : Cause} {items : List Item} (bad : Bad text cause)
    (more : Course (pre ++ text) rest items) :
    Course pre (text ++ rest) (.fault ⟨cause, .ofText pre text⟩ :: items)
  /-- A comment without an end takes in the rest of the text, and shows its opening. -/
  | unclosedComment {pre body : List Char} :
    Course pre ('/' :: '*' :: body) [.fault ⟨.unterminatedComment, .ofText pre ['/', '*']⟩]

/-- **Every scan has a course.** -/
theorem course_scan : ∀ pre cs : List Char, Course pre cs (scan (Position.start.advance pre) cs)
  | pre, [] => by
    rw [scan]
    exact .done
  | pre, c :: cs => by
    obtain ⟨text, rest, hsplit, hne, hwidth, htakes⟩ := Lexeme.takes_first c cs
    have hshorter : rest.length < (c :: cs).length := by
      rw [hsplit, List.length_append]
      have := List.length_pos_iff.mpr hne
      omega
    have hmore := course_scan (pre ++ text) rest
    have htake : (c :: cs).take text.length = text := by rw [hsplit, List.take_left]
    rw [scan_append hsplit hne hwidth, ← Position.advance_append, Item.ofLexeme?, ← hwidth, htake,
      ← Position.advance_append]
    generalize hfound : (Lexeme.first c cs).found = found at htakes ⊢
    cases htakes with
    | nothing skipped =>
      rw [hsplit]
      exact .skip hne skipped hmore
    | token lexed spelling =>
      have hends := Lexeme.not_prolongs_of_first hfound hsplit hne hwidth
      subst spelling
      rw [hsplit]
      exact .token lexed hends hmore
    | unrecognised single =>
      subst single
      obtain ⟨rfl, rfl⟩ := List.cons.inj hsplit
      have hnotBlank : isBlank c = false := by
        cases hblank : isBlank c with
        | false => rfl
        | true =>
          rw [Lexeme.first_of_isBlank hblank] at hfound
          cases hfound
      simp only [List.take_succ_cons, List.take_zero, ← Position.advance_append]
      exact .fault (.unrecognised hnotBlank) hmore
    | unclosedString quote =>
      subst quote
      simp only [htake, ← Position.advance_append]
      rw [hsplit]
      exact .fault .unclosedString hmore
    | unclosedComment opening last =>
      subst opening last
      rw [List.append_nil] at hsplit
      obtain ⟨rfl, rfl⟩ := List.cons.inj hsplit
      rw [scan]
      simp only [List.take_succ_cons, List.take_zero, ← Position.advance_append]
      exact .unclosedComment
termination_by _ cs => cs.length
decreasing_by exact hshorter

/-! ## Cuts -/

/-- The ways to cut up the text `cs`, which stands behind `pre`, and what is noted down. -/
inductive Cut : (pre cs : List Char) → List Item → Prop
  | done {pre : List Char} : Cut pre [] []
  | skip {pre text rest : List Char} {items : List Item} (skipped : Skipped rest text)
    (more : Cut (pre ++ text) rest items) : Cut pre (text ++ rest) items
  | token {pre text rest value : List Char} {kind : TokenKind} {items : List Item}
    (lexed : Lexed kind value) (spelling : text = spelled kind value) (visible : text ≠ [])
    (more : Cut (pre ++ text) rest items) :
    Cut pre (text ++ rest) (.token ⟨kind, String.ofList value, .ofText pre text⟩ :: items)
  /-- An error shows only the beginning of the text that it takes. -/
  | fault {pre shown hidden rest : List Char} {cause : Cause} {items : List Item}
    (visible : shown ≠ []) (more : Cut (pre ++ (shown ++ hidden)) rest items) :
    Cut pre (shown ++ hidden ++ rest) (.fault ⟨cause, .ofText pre shown⟩ :: items)

theorem Course.cut {pre cs : List Char} {items : List Item} (h : Course pre cs items) :
    Cut pre cs items := by
  induction h with
  | done => exact .done
  | skip _ skipped _ ih => exact .skip skipped ih
  | token lexed _ _ ih =>
    obtain ⟨-, -, -, -, hne, -⟩ := lexed.exists_rule
    exact .token lexed rfl hne ih
  | @fault pre text rest cause items bad _ ih =>
    have hne : text ≠ [] := by
      cases bad <;> exact List.cons_ne_nil _ _
    have hcut : Cut pre (text ++ [] ++ rest) (.fault ⟨cause, .ofText pre text⟩ :: items) :=
      .fault hne (by rwa [List.append_nil])
    rwa [List.append_nil] at hcut
  | @unclosedComment pre body =>
    have hcut : Cut pre (['/', '*'] ++ body ++ [])
        [.fault ⟨.unterminatedComment, .ofText pre ['/', '*']⟩] :=
      .fault (List.cons_ne_nil _ _) .done
    rwa [List.append_nil] at hcut

/-- **Scanning cuts up the text.** -/
theorem cut_scan (pre cs : List Char) : Cut pre cs (scan (Position.start.advance pre) cs) :=
  (course_scan pre cs).cut

/-- What the tokens of a scan carry fits their kinds. -/
theorem Cut.lexed {pre cs : List Char} {items : List Item} (h : Cut pre cs items) :
    ∀ t ∈ items.filterMap Item.token?, Lexed t.kind t.value.toList := by
  induction h with
  | done => nofun
  | skip _ _ ih => exact ih
  | token lexed _ _ _ ih =>
    refine List.forall_mem_cons.mpr ⟨?_, ih⟩
    rw [String.toList_ofList]
    exact lexed
  | fault _ _ ih => exact ih

/-! ## Tokens and errors -/

theorem tokenize_eq_ok_iff {source : String} {tokens : List Token} :
    tokenize source = .ok tokens ↔
      (scan .start source.toList).filterMap Item.error? = [] ∧
      tokens = (scan .start source.toList).filterMap Item.token? ++
        [.endAt (Position.start.advance source.toList)] := by
  simp only [tokenize]
  split
  · next h => simp [h, eq_comm]
  · next h => exact ⟨fun heq => (by cases heq), fun heq => absurd heq.1 h⟩

theorem tokenize_eq_error_iff {source : String} {errors : List Error} :
    tokenize source = .error errors ↔
      errors = (scan .start source.toList).filterMap Item.error? ∧ errors ≠ [] := by
  simp only [tokenize]
  split
  · next h => simp [h]
  · next hne =>
    constructor
    · intro h
      cases h
      exact ⟨rfl, hne⟩
    · rintro ⟨rfl, -⟩
      rfl

theorem filterMap_token? (tokens : List Token) :
    (tokens.map Item.token).filterMap Item.token? = tokens := by
  rw [List.filterMap_map]
  exact List.filterMap_some

theorem filterMap_error? (tokens : List Token) :
    (tokens.map Item.token).filterMap Item.error? = [] := by
  rw [List.filterMap_map, List.filterMap_eq_nil_iff]
  intro token _
  rfl

/-- The tokens of a source in which no error is found. -/
theorem tokenize_of_scan {source : String} {tokens : List Token}
    (h : scan .start source.toList = tokens.map .token) :
    tokenize source = .ok (tokens ++ [.endAt (Position.start.advance source.toList)]) := by
  refine tokenize_eq_ok_iff.mpr ?_
  rw [h, filterMap_token?, filterMap_error?]
  exact ⟨rfl, rfl⟩

end TypedImp
