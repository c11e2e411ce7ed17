import TypedImp.Execution.Machine
import TypedImp.Proofs.Number.Reading
import TypedImp.Proofs.Printing.Programs

/-!
# Values given as text and literals of programs

The same notation is read in two places.  A value that is given as text is read as a whole, with its
sign.  In a program the sign is an operator, digits with a point among them are three tokens, and
the magnitude of the least integer is a literal only behind a minus.  Nevertheless a text that both
can read means the same in both.

## Where the two could drift apart

A minus is applied when the program runs, and there it wraps around.  This makes no difference: a
magnitude that is read at all is at most the greatest integer, and its negation is exact.  The one
magnitude beyond is caught before, as a literal of its own.  For decimals the two agree because a
minus in front of a text negates what is read.

* `IsScalarText`: the texts in question.
* `Expr.ofSource?`, `Expr.Denotes`: reading a text as an expression, and what that evaluates to.
* `Parse.exprAbove_number`, `Parse.exprAbove_minus`: how numbers are parsed up to the end.
* `ofSource?_agrees`: each text is refused by both readers or means the same to both.
* `literals_denote_read_values`: **the two readers agree**.
-/

namespace TypedImp

/-- The texts that are literals with at most a minus in front. -/
inductive IsScalarText : List Char → Prop
  | integer {digits : List Char} (integral : isDigits digits = true) : IsScalarText digits
  | minusInteger {digits : List Char} (integral : isDigits digits = true) :
    IsScalarText ('-' :: digits)
  | decimal {whole fraction : List Char} (integral : isDigits whole = true)
    (fractional : isDigits fraction = true) : IsScalarText (whole ++ '.' :: fraction)
  | minusDecimal {whole fraction : List Char} (integral : isDigits whole = true)
    (fractional : isDigits fraction = true) : IsScalarText ('-' :: (whole ++ '.' :: fraction))
  | bool (b : Bool) : IsScalarText (Value.boolText b).toList
  | string {body : List Char} (inside : ∀ c ∈ body, c ≠ '"' ∧ c ≠ '\n') :
    IsScalarText ('"' :: body ++ ['"'])

namespace Expr

/-- The expression that parsing came to, if it came to the end of the input. -/
def whole? : EStateM.Result Stop Cursor Expr → Option Expr
  | .ok e c => if c.current.kind = .endOfInput then some e else none
  | .error _ _ => none

/-- The expression that a source consists of. -/
def ofSource? (source : String) : Option Expr :=
  match tokenize source with
  | .ok tokens =>
    let c := Cursor.ofTokens tokens
    whole? (Parse.expr .standard c.fuel .lowest c)
  | .error _ => none

/-- In every program and every state an expression evaluates to the value and changes nothing. -/
def Denotes (e : Expr) (v : Value) : Prop :=
  ∀ (program : Program) (m : Machine) (fuel : Nat), 2 ≤ fuel → evalExpr program fuel e m = .ok v m

theorem denotes_number (value : Literal) (text : String) (span : Span) :
    (number value text span).Denotes value.toValue := by
  intro program m fuel hfuel
  obtain ⟨fuel, rfl⟩ := Nat.exists_eq_add_of_le' hfuel
  rfl

theorem denotes_minus {value : Literal} {v : Value} (h : UnaryOp.minus.eval? value.toValue = some v)
    (text : String) (span span' : Span) :
    (unary .minus (number value text span) span').Denotes v := by
  intro program m fuel hfuel
  obtain ⟨fuel, rfl⟩ := Nat.exists_eq_add_of_le' hfuel
  cases value <;> cases h <;> rfl

theorem denotes_bool (b : Bool) (span : Span) : (bool b span).Denotes (.bool b) := by
  intro program m fuel hfuel
  obtain ⟨fuel, rfl⟩ := Nat.exists_eq_add_of_le' hfuel
  rfl

theorem denotes_string (text : String) (span : Span) :
    (string text span).Denotes (.string text) := by
  intro program m fuel hfuel
  obtain ⟨fuel, rfl⟩ := Nat.exists_eq_add_of_le' hfuel
  rfl

/-- A source without errors is read from the cursor before its tokens. -/
theorem ofSource?_of_scan {cs : List Char} {tokens : List Token}
    (hscan : scan .start cs = tokens.map .token) {R : Option Expr → Prop}
    (h : ∀ c : Cursor, c.Ends →
      c.current :: c.ahead = tokens ++ [.endAt (Position.start.advance cs)] →
      R (whole? (Parse.exprAbove .lowest c))) : R (ofSource? (String.ofList cs)) := by
  have hsource : scan .start (String.ofList cs).toList = tokens.map .token := by
    rwa [String.toList_ofList]
  obtain ⟨hends, hsplit⟩ := @Cursor.ofTokens_append_end tokens (Position.start.advance cs)
  rw [ofSource?, tokenize_of_scan hsource, String.toList_ofList]
  exact h _ hends hsplit

end Expr

/-! ## Parsing up to the end -/

namespace Parse

/-- A literal or a name that is all there is. -/
theorem exprAbove_primary {c : Cursor} (hc : c.Ends)
    (hstart : Grammar.standard.start c.current.kind = some .primary)
    (hend : ∀ e c', primary c = .ok e c' → c'.Ends ∧ c'.current.kind = .endOfInput)
    (above : Precedence) : exprAbove above c = primary c := by
  have hprimary := ample_startExpr_primary hc (ne_end_of_start hstart)
  rw [exprAbove_of_start hc hstart above]
  change EStateM.bind _ _ c = _
  rw [EStateM.bind, hprimary]
  cases hok : primary c with
  | ok e c' =>
    obtain ⟨hends, hkind⟩ := hend e c' hok
    exact extension_of_stopped hends (stopped_of_follow_none (by rw [hkind]; rfl)) e
  | error stop c' => rfl

/-- A single token that is all there is. -/
theorem exprAbove_token {c : Cursor} (hc : c.Ends)
    (hstart : Grammar.standard.start c.current.kind = some .primary)
    (hend : c.advance.current.kind = .endOfInput) {e : Expr}
    (hprimary : primary c = .ok e c.advance) (above : Precedence) :
    exprAbove above c = .ok e c.advance := by
  refine (exprAbove_primary hc hstart (fun e' c' hok => ?_) above).trans hprimary
  rw [hprimary] at hok
  cases hok
  exact ⟨hc.advance, hend⟩

end Parse

/-! ## Numbers without a sign -/

namespace Word

/-- Words that are numbers. -/
def IsNumber : Word → Prop
  | token kind text => kind = .number ∧ isDigits text = true
  | decimal whole fraction => isDigits whole = true ∧ isDigits fraction = true

/-- What a number stands for, unless it is too large. -/
def literal? : Word → Option Literal
  | token _ text => (readInt32? text).map .int32
  | decimal whole fraction => (readFloat32? (whole ++ '.' :: fraction)).map .float32

variable {w : Word}

theorem IsNumber.legible (h : w.IsNumber) : w.Legible := by
  cases w with
  | token kind text =>
    obtain ⟨rfl, hdigits⟩ := h
    exact lexed_of_isDigits hdigits
  | decimal => exact h

theorem spelling_number (text : List Char) : (token .number text).spelling = text :=
  Lexeme.spelled_of_ne (by decide) text

theorem IsNumber.isNumeral (h : w.IsNumber) : IsNumeral w.spelling := by
  cases w with
  | token kind text =>
    obtain ⟨rfl, hdigits⟩ := h
    rw [spelling_number]
    exact isNumeral_of_isDigits hdigits
  | decimal whole fraction =>
    exact (isNumeral_of_isDigits h.1).append ['.'] (isNumeral_of_isDigits h.2)

theorem IsNumber.isDigit_head (h : w.IsNumber) :
    ∀ d, w.spelling.head? = some d → d.isDigit = true := by
  intro d hd
  cases w with
  | token kind text =>
    obtain ⟨rfl, hdigits⟩ := h
    rw [spelling_number] at hd
    exact isDigit_of_mem hdigits d (List.mem_of_head? hd)
  | decimal whole fraction =>
    obtain ⟨e, es, rfl, he, -⟩ := exists_of_isDigits h.1
    cases hd
    exact he

theorem not_mem_point_of_isDigits {digits : List Char} (h : isDigits digits = true) :
    '.' ∉ digits := fun hmem => absurd (isDigit_of_mem h '.' hmem) (by decide)

/-- As the text of a value a number is the literal that it stands for. -/
theorem IsNumber.read?_spelling (h : w.IsNumber) :
    Value.read? (String.ofList w.spelling) = w.literal?.map Literal.toValue := by
  cases w with
  | token kind text =>
    have hnumeral := h.isNumeral
    obtain ⟨rfl, hdigits⟩ := h
    rw [spelling_number] at hnumeral ⊢
    rw [Value.read?_of_no_point hnumeral (not_mem_point_of_isDigits hdigits), literal?,
      Option.map_map]
    rfl
  | decimal whole fraction =>
    have hpoint : '.' ∈ whole ++ '.' :: fraction := List.mem_append_right _ List.mem_cons_self
    rw [Value.read?_of_point h.isNumeral hpoint, literal?, Option.map_map]
    rfl

/-- The word is the magnitude of the least integer. -/
def IsLeast (w : Word) : Prop :=
  ∃ text, w = .token .number text ∧ digitsValue text = Parse.leastMagnitude

/-- Behind a minus it is negated, unless it is the magnitude of the least integer. -/
theorem IsNumber.read?_minus (h : w.IsNumber) (hleast : ¬ w.IsLeast) :
    Value.read? (String.ofList ('-' :: w.spelling)) =
      w.literal?.bind fun value => UnaryOp.minus.eval? value.toValue := by
  have hnumeral := h.isNumeral.minus
  cases w with
  | token kind text =>
    obtain ⟨rfl, hdigits⟩ := h
    rw [spelling_number] at hnumeral ⊢
    have hpoint : '.' ∉ '-' :: text :=
      List.not_mem_cons_of_ne_of_not_mem (by decide) (not_mem_point_of_isDigits hdigits)
    rw [Value.read?_of_no_point hnumeral hpoint,
      readInt32?_minus hdigits fun heq => hleast ⟨text, rfl, heq⟩, literal?]
    cases readInt32? text <;> rfl
  | decimal whole fraction =>
    have hpoint : '.' ∈ '-' :: (whole ++ '.' :: fraction) := by simp
    rw [Value.read?_of_point hnumeral hpoint, spelling, readFloat32?_minus h.1, literal?]
    cases readFloat32? (whole ++ '.' :: fraction) <;> rfl

end Word

namespace Parse

/-- A number becomes the literal that it stands for, and is refused if there is none. -/
theorem number_word {w : Word} (hw : w.IsNumber) {c c' : Cursor} (hc : c.Ends)
    (hspells : c.Spells [w] c') (hdot : c'.current.kind ≠ .dot) :
    match w.literal? with
    | some value => ∃ span, number c = .ok (.number value (String.ofList w.spelling) span) c'
    | none => ∃ stop d, number c = .error stop d := by
  cases w with
  | token kind text =>
    obtain ⟨rfl, -⟩ := hw
    obtain ⟨-, value_eq, -, more⟩ := hspells.of_token
    cases more
    have hvalue : c.current.value = String.ofList text := by rw [← value_eq, String.ofList_toList]
    rw [Word.spelling_number, Word.literal?, number_integer (formsDecimal_of_ne hdot), value_eq,
      hvalue]
    cases readInt32? text with
    | some n => exact ⟨_, rfl⟩
    | none => exact ⟨_, _, rfl⟩
  | decimal whole fraction =>
    cases hspells with
    | decimal kind_eq whole_eq fraction_eq joined more =>
      cases more
      have htext : c.current.value ++ "." ++ c.advance.advance.current.value =
          String.ofList (whole ++ '.' :: fraction) := by
        rw [← String.toList_inj]
        simp [whole_eq, fraction_eq]
      rw [Word.spelling, Word.literal?, number_decimal hc joined, htext, String.toList_ofList]
      cases readFloat32? (whole ++ '.' :: fraction) with
      | some v => exact ⟨_, rfl⟩
      | none => exact ⟨_, _, rfl⟩

/-- The same for a number that is all there is. -/
theorem exprAbove_number {w : Word} (hw : w.IsNumber) {c c' : Cursor} (hc : c.Ends)
    (hspells : c.Spells [w] c') (hend : c'.current.kind = .endOfInput) (above : Precedence) :
    match w.literal? with
    | some value => ∃ span,
        exprAbove above c = .ok (.number value (String.ofList w.spelling) span) c'
    | none => ∃ stop d, exprAbove above c = .error stop d := by
  have hkind : c.current.kind = .number := by
    rw [hspells.kind_eq]
    cases w with
    | token kind text => exact hw.1
    | decimal => rfl
  have hprimary : primary c = number c := by rw [primary_apply, hkind]
  have hnumber := number_word hw hc hspells (by rw [hend]; decide)
  have hwhole : exprAbove above c = primary c := by
    refine exprAbove_primary hc (by rw [hkind]; rfl) (fun e d hok => ?_) above
    rw [hprimary] at hok
    cases hliteral : w.literal? with
    | some value =>
      rw [hliteral] at hnumber
      obtain ⟨span, heq⟩ := hnumber
      rw [hok] at heq
      cases heq
      exact ⟨hspells.moves.ends hc, hend⟩
    | none =>
      rw [hliteral] at hnumber
      obtain ⟨stop, c'', heq⟩ := hnumber
      rw [hok] at heq
      cases heq
  rw [hwhole, hprimary]
  exact hnumber

/-- A minus is only joined to the magnitude of the least integer. -/
theorem atLeastMagnitude_iff {w : Word} (hw : w.IsNumber) {c c' : Cursor} (hc : c.Ends)
    (hspells : c.Spells [w] c') (hdot : c'.current.kind ≠ .dot) :
    atLeastMagnitude c = true ↔ w.IsLeast := by
  cases w with
  | token kind text =>
    obtain ⟨rfl, hdigits⟩ := hw
    obtain ⟨kind_eq, value_eq, visible, more⟩ := hspells.of_token
    cases more
    have hpeek := Cursor.peek_one hc (kind_eq ▸ visible)
    simp [atLeastMagnitude, kind_eq, hpeek, hdot, value_eq, Word.IsLeast,
      readInt64?_leastMagnitude hdigits]
  | decimal whole fraction =>
    cases hspells with
    | decimal kind_eq _ _ joined =>
      simp only [formsDecimal, Bool.and_eq_true, decide_eq_true_eq] at joined
      have hpeek := Cursor.peek_one hc (by rw [kind_eq]; decide)
      simp [atLeastMagnitude, hpeek, joined.1.1.1, Word.IsLeast]

end Parse

/-! ## Texts as a whole -/

/-- Two readings of a text agree: both refuse it, or the expression evaluates to the value. -/
def ReadingsAgree (v : Option Value) (e : Option Expr) : Prop :=
  Option.Rel (fun v e => e.Denotes v) v e

theorem number_agrees {w : Word} (hw : w.IsNumber) {c c' : Cursor} (hc : c.Ends)
    (hspells : c.Spells [w] c') (hend : c'.current.kind = .endOfInput) :
    ReadingsAgree (Value.read? (String.ofList w.spelling))
      (Expr.whole? (Parse.exprAbove .lowest c)) := by
  have hexpr := Parse.exprAbove_number hw hc hspells hend .lowest
  rw [hw.read?_spelling]
  cases hliteral : w.literal? with
  | some value =>
    rw [hliteral] at hexpr
    obtain ⟨span, heq⟩ := hexpr
    rw [heq, Expr.whole?, if_pos hend]
    exact .some (Expr.denotes_number value _ span)
  | none =>
    rw [hliteral] at hexpr
    obtain ⟨stop, d, heq⟩ := hexpr
    rw [heq]
    exact .none

theorem minus_agrees {w : Word} (hw : w.IsNumber) {c c' : Cursor} (hc : c.Ends)
    (hkind : c.current.kind = .dash) (hspells : c.advance.Spells [w] c')
    (hend : c'.current.kind = .endOfInput) :
    ReadingsAgree (Value.read? (String.ofList ('-' :: w.spelling)))
      (Expr.whole? (Parse.exprAbove .lowest c)) := by
  have hvisible : c.current.kind ≠ .endOfInput := by rw [hkind]; decide
  have hleast := Parse.atLeastMagnitude_iff hw hc.advance hspells (by rw [hend]; decide)
  have hstop : Parse.Stopped .lowest c' := stopped_of_follow_none (by rw [hend]; rfl)
  have hends := hspells.moves.ends hc.advance
  have hstart := @Parse.exprAbove_of_start _ .operator hc (by rw [hkind]; rfl) .lowest
  by_cases h : w.IsLeast
  · have hjoined : (UnaryOp.ofKind c.current.kind = .minus && Parse.atLeastMagnitude c.advance) =
        true := by
      rw [hkind, hleast.mpr h]
      rfl
    have hok := Parse.ample_startExpr_least hc hvisible hjoined
    obtain ⟨text, rfl, hvalue⟩ := h
    obtain ⟨-, -, -, more⟩ := hspells.of_token
    cases more
    rw [hstart, Parse.bind_of_ok hok, Parse.extension_of_stopped hends hstop, Expr.whole?,
      if_pos hend, Word.spelling_number]
    have hread : readInt32? ('-' :: text) = some Int32.minValue :=
      (readInt32?_minus_eq_some_iff hw.2).mpr ⟨Nat.le_of_eq hvalue, by rw [hvalue]; rfl⟩
    have hpoint : '.' ∉ '-' :: text :=
      List.not_mem_cons_of_ne_of_not_mem (by decide) (Word.not_mem_point_of_isDigits hw.2)
    rw [Value.read?_of_no_point (isNumeral_of_isDigits hw.2).minus hpoint, hread]
    exact .some (Expr.denotes_number (.int32 Int32.minValue) _ _)
  · have hapart : ¬ (UnaryOp.ofKind c.current.kind = .minus && Parse.atLeastMagnitude c.advance) =
        true := by
      rw [Bool.and_eq_true, hleast]
      exact fun hboth => h hboth.2
    have hoperand := Parse.exprAbove_number hw hc.advance hspells hend .unary
    rw [hw.read?_minus h]
    have hunary := Parse.ample_startExpr_operator hc hvisible hapart
    rw [Parse.bind_of_ok (Parse.next_apply c)] at hunary
    cases hliteral : w.literal? with
    | some value =>
      rw [hliteral] at hoperand
      obtain ⟨span, heq⟩ := hoperand
      rw [Parse.bind_of_ok heq, hkind] at hunary
      rw [hstart, Parse.bind_of_ok hunary, Parse.extension_of_stopped hends hstop, Expr.whole?,
        if_pos hend]
      cases value with
      | int32 n => exact .some (Expr.denotes_minus rfl _ _ _)
      | float32 v => exact .some (Expr.denotes_minus rfl _ _ _)
    | none =>
      rw [hliteral] at hoperand
      obtain ⟨stop, d, heq⟩ := hoperand
      rw [Parse.bind_of_error heq] at hunary
      rw [hstart, Parse.bind_of_error hunary]
      exact .none

/-- A digit does not go on with a minus. -/
theorem not_prolongs_minus {d : Char} (hd : d.isDigit = true) : ¬ Prolongs ['-'] d := by
  intro hprolongs
  obtain ⟨rule, hrule, hmatches⟩ := exists_matches_of_prolongs (List.cons_ne_nil _ _) hprolongs
  have honly : ∀ rule ∈ Rule.table, rule.pattern.begins '-' = true →
      rule.pattern = .fixed ['-', '>'] ∨ rule.pattern = .fixed ['-'] := by
    decide
  rcases honly rule hrule hmatches.begins with h | h <;> rw [h] at hmatches
  · obtain rfl : d = '>' := (List.cons.inj (List.cons.inj hmatches).2).1
    cases hd
  · cases hmatches

/-- A word that is all there is. -/
theorem scan_single {w : Word} (hw : w.Legible) (pre : List Char) :
    scan (Position.start.advance pre) w.spelling = (w.tokens pre).map .token := by
  have hscan := @scan_spelling w hw [] nofun pre
  rw [List.append_nil, scan, List.append_nil] at hscan
  exact hscan

/-- A source that consists of one word. -/
theorem Expr.ofSource?_of_word {w : Word} (hw : w.Legible) {R : Option Expr → Prop}
    (h : ∀ c c' : Cursor, c.Ends → c.Spells [w] c' → c'.current.kind = .endOfInput →
      R (Expr.whole? (Parse.exprAbove .lowest c))) :
    R (Expr.ofSource? (String.ofList w.spelling)) := by
  refine Expr.ofSource?_of_scan (scan_single hw []) fun c hc hsplit => ?_
  obtain ⟨c', hspells, hlast⟩ := @Cursor.spells_of_tokens [w]
    (List.forall_mem_singleton.mpr hw) [] c _ _ (by simpa [wordTokens] using hsplit)
  exact h c c' hc hspells (by rw [hlast]; rfl)

/-- A source that consists of a minus and a number. -/
theorem Expr.ofSource?_of_minus {w : Word} (hw : w.IsNumber) {R : Option Expr → Prop}
    (h : ∀ c c' : Cursor, c.Ends → c.current.kind = .dash → c.advance.Spells [w] c' →
      c'.current.kind = .endOfInput → R (Expr.whole? (Parse.exprAbove .lowest c))) :
    R (Expr.ofSource? (String.ofList ('-' :: w.spelling))) := by
  have hminus : Lexed .dash ['-'] := .sign (by decide)
  have hends : ∀ d, w.spelling.head? = some d → ¬ Prolongs (spelled .dash ['-']) d :=
    fun d hd => not_prolongs_minus (hw.isDigit_head d hd)
  have hscan : scan .start ('-' :: w.spelling) =
      (⟨.dash, "-", .ofText [] ['-']⟩ :: w.tokens ['-']).map .token := by
    rw [List.map_cons, ← scan_single hw.legible]
    exact scan_lexed hminus hends []
  refine Expr.ofSource?_of_scan hscan fun c hc hsplit => ?_
  obtain ⟨hcurrent, hahead⟩ := List.cons.inj hsplit
  have hkind : c.current.kind = .dash := by rw [hcurrent]
  have hnext := Cursor.advance_tokens (by rw [hkind]; decide) (by rw [hahead]; simp)
  obtain ⟨c', hspells, hlast⟩ := @Cursor.spells_of_tokens [w]
    (List.forall_mem_singleton.mpr hw.legible) ['-'] c.advance _ _
    (by simpa [wordTokens] using hnext.trans hahead)
  exact h c c' hc hkind hspells (by rw [hlast]; rfl)

/-- A source that consists of one token with a value of its own. -/
theorem token_agrees {kind : TokenKind} {text : List Char} (hlexed : Lexed kind text)
    (hstart : Grammar.standard.start kind = some .primary) {v : Value}
    (hread : Value.read? (String.ofList (spelled kind text)) = some v)
    (h : ∀ c : Cursor, c.current.kind = kind → c.current.value.toList = text →
      ∃ e, Parse.primary c = .ok e c.advance ∧ e.Denotes v) :
    ReadingsAgree (Value.read? (String.ofList (spelled kind text)))
      (Expr.ofSource? (String.ofList (spelled kind text))) := by
  rw [hread]
  refine Expr.ofSource?_of_word (w := .token kind text) hlexed fun c c' hc hspells hend => ?_
  obtain ⟨kind_eq, value_eq, -, more⟩ := hspells.of_token
  cases more
  obtain ⟨e, hprimary, hdenotes⟩ := h c kind_eq value_eq
  rw [Parse.exprAbove_token hc (kind_eq ▸ hstart) hend hprimary, Expr.whole?, if_pos hend]
  exact .some hdenotes

theorem bool_agrees (b : Bool) :
    ReadingsAgree (Value.read? (Value.boolText b)) (Expr.ofSource? (Value.boolText b)) := by
  have hlexed : Lexed (.ofWord (Value.boolText b)) (Value.boolText b).toList :=
    legible_word (by cases b <;> decide)
  have hspelled : spelled (.ofWord (Value.boolText b)) (Value.boolText b).toList =
      (Value.boolText b).toList := Lexeme.spelled_of_ne (by cases b <;> decide) _
  have hread : Value.read? (Value.boolText b) = some (.bool b) := by
    cases b <;> decide +kernel
  have hagree := token_agrees hlexed (by cases b <;> rfl) (v := .bool b)
    (by rw [hspelled, String.ofList_toList, hread]) fun c hkind _ =>
      ⟨.bool b c.current.span, by rw [primary_apply, hkind]; cases b <;> rfl,
        Expr.denotes_bool b _⟩
  rwa [hspelled, String.ofList_toList] at hagree

theorem read?_string {body : List Char} :
    Value.read? (String.ofList ('"' :: body ++ ['"'])) = some (.string (String.ofList body)) := by
  have hlast : ('"' :: body ++ ['"']).getLast? = some '"' := List.getLast?_concat
  have htrim : Text.trim ('"' :: body ++ ['"']) = '"' :: body ++ ['"'] := by
    refine Text.trim_eq_self ?_ ?_
    · rintro _ ⟨⟩
      decide
    · rw [hlast]
      rintro _ ⟨⟩
      decide
  have hquote : Value.unquote? ('"' :: body ++ ['"']) = some body := by
    simp [Value.unquote?]
  rw [Value.read?, String.toList_ofList, htrim]
  simp only [hquote]

theorem string_agrees {body : List Char} (inside : ∀ c ∈ body, c ≠ '"' ∧ c ≠ '\n') :
    ReadingsAgree (Value.read? (String.ofList ('"' :: body ++ ['"'])))
      (Expr.ofSource? (String.ofList ('"' :: body ++ ['"']))) := by
  have hlexed : Lexed .string body := .string fun c hc => by simp [isStringPart, inside c hc]
  have hspelled : spelled .string body = '"' :: body ++ ['"'] := rfl
  rw [← hspelled]
  refine token_agrees hlexed rfl (v := .string (String.ofList body)) read?_string
    fun c hkind hvalue =>
      ⟨.string c.current.value c.current.span, by rw [primary_apply, hkind], ?_⟩
  rw [← hvalue, String.ofList_toList]
  exact Expr.denotes_string _ _

/-- **Each text is refused by both readers or means the same to both.** -/
theorem ofSource?_agrees {text : List Char} (h : IsScalarText text) :
    ReadingsAgree (Value.read? (String.ofList text)) (Expr.ofSource? (String.ofList text)) := by
  have hnumber : ∀ {w : Word}, w.IsNumber →
      ReadingsAgree (Value.read? (String.ofList w.spelling))
        (Expr.ofSource? (String.ofList w.spelling)) :=
    fun hw => Expr.ofSource?_of_word hw.legible fun _ _ hc => number_agrees hw hc
  have hminus : ∀ {w : Word}, w.IsNumber →
      ReadingsAgree (Value.read? (String.ofList ('-' :: w.spelling)))
        (Expr.ofSource? (String.ofList ('-' :: w.spelling))) :=
    fun hw => Expr.ofSource?_of_minus hw fun _ _ hc => minus_agrees hw hc
  cases h with
  | integer integral =>
    have hagree := hnumber (w := .token .number text) ⟨rfl, integral⟩
    rwa [Word.spelling_number] at hagree
  | @minusInteger digits integral =>
    have hagree := hminus (w := .token .number digits) ⟨rfl, integral⟩
    rwa [Word.spelling_number] at hagree
  | decimal integral fractional => exact hnumber (w := .decimal _ _) ⟨integral, fractional⟩
  | minusDecimal integral fractional => exact hminus (w := .decimal _ _) ⟨integral, fractional⟩
  | bool b =>
    rw [String.ofList_toList]
    exact bool_agrees b
  | @string body inside => exact string_agrees inside

/-! ## The two readers -/

theorem ReadingsAgree.eq_none_iff {v : Option Value} {e : Option Expr} (h : ReadingsAgree v e) :
    v = none ↔ e = none := by
  cases h with
  | some => exact ⟨nofun, nofun⟩
  | none => exact ⟨fun _ => rfl, fun _ => rfl⟩

theorem ReadingsAgree.exists_denotes {v? : Option Value} {e? : Option Expr}
    (h : ReadingsAgree v? e?) {v : Value} (hv : v? = some v) : ∃ e, e? = some e ∧ e.Denotes v := by
  cases h with
  | some hdenotes =>
    cases hv
    exact ⟨_, rfl, hdenotes⟩
  | none => cases hv

theorem ReadingsAgree.eq_some_iff {v? : Option Value} {e? : Option Expr}
    (h : ReadingsAgree v? e?) {v : Value} {program : Program} {m : Machine} {fuel : Nat}
    (hfuel : 2 ≤ fuel) :
    v? = some v ↔ ∃ e, e? = some e ∧ evalExpr program fuel e m = .ok v m := by
  cases h with
  | @some w e hdenotes =>
    have heval := hdenotes program m fuel hfuel
    constructor
    · rintro ⟨⟩
      exact ⟨e, rfl, heval⟩
    · rintro ⟨_, ⟨⟩, heq⟩
      rw [heval] at heq
      cases heq
      rfl
  | none => exact ⟨nofun, nofun⟩

theorem read?_decimal_eq_none_iff {whole fraction : List Char} (hwhole : isDigits whole = true)
    (hfraction : isDigits fraction = true) {v : Float32}
    (hv : v = Decimal.toFloat32 ⟨digitsValue (whole ++ fraction), -(fraction.length : Int)⟩)
    {text : List Char} (htext : text = whole ++ '.' :: fraction ∨
      text = '-' :: (whole ++ '.' :: fraction)) :
    Value.read? (String.ofList text) = none ↔ v.isFinite = false := by
  have hnumeral : IsNumeral (whole ++ '.' :: fraction) :=
    (isNumeral_of_isDigits hwhole).append ['.'] (isNumeral_of_isDigits hfraction)
  have hread := readFloat32?_point hwhole hfraction hv
  rcases htext with rfl | rfl
  · rw [Value.read?_of_point hnumeral (by simp), hread]
    cases v.isFinite <;> simp
  · rw [Value.read?_of_point hnumeral.minus (by simp), readFloat32?_minus hwhole, hread]
    cases v.isFinite <;> simp

/-- **Values given as text agree with the literals of programs.**  Of an integer or a decimal with
at most a minus in front, of a truth value and of a string between quotes, reading it as a value
gives `v` exactly if reading it as a source up to its end succeeds and the expression evaluates to
`v`.  Both readers accept the least integer and refuse the magnitude of it, and both refuse a
decimal exactly if the nearest number is not finite. -/
theorem literals_denote_read_values :
    (∀ text : String, IsScalarText text.toList →
      ∀ (v : Value) (program : Program) (m : Machine) (fuel : Nat), 2 ≤ fuel →
        (Value.read? text = some v ↔
          ∃ e, Expr.ofSource? text = some e ∧ evalExpr program fuel e m = .ok v m)) ∧
    (Value.read? "-2147483648" = some (.int32 Int32.minValue) ∧
      ∃ e, Expr.ofSource? "-2147483648" = some e ∧ e.Denotes (.int32 Int32.minValue)) ∧
    (Value.read? "2147483648" = none ∧ Expr.ofSource? "2147483648" = none) ∧
    ∀ (text : String) (whole fraction : List Char), isDigits whole = true →
      isDigits fraction = true →
      (text.toList = whole ++ '.' :: fraction ∨ text.toList = '-' :: (whole ++ '.' :: fraction)) →
      ∀ v, v = Decimal.toFloat32 ⟨digitsValue (whole ++ fraction), -(fraction.length : Int)⟩ →
        (Value.read? text = none ↔ v.isFinite = false) ∧
        (Expr.ofSource? text = none ↔ v.isFinite = false) := by
  have hagree : ∀ {text : String}, IsScalarText text.toList →
      ReadingsAgree (Value.read? text) (Expr.ofSource? text) := by
    intro text h
    have := ofSource?_agrees h
    rwa [String.ofList_toList] at this
  refine ⟨fun text h v program m fuel hfuel => (hagree h).eq_some_iff hfuel, ?_, ?_, ?_⟩
  · have htext : IsScalarText "-2147483648".toList :=
      @IsScalarText.minusInteger "2147483648".toList (by decide)
    have hread : Value.read? "-2147483648" = some (.int32 Int32.minValue) := by decide +kernel
    exact ⟨hread, (hagree htext).exists_denotes hread⟩
  · have htext : IsScalarText "2147483648".toList := .integer (by decide)
    have hread : Value.read? "2147483648" = none := by decide +kernel
    exact ⟨hread, (hagree htext).eq_none_iff.mp hread⟩
  · intro text whole fraction hwhole hfraction htext v hv
    have hscalar : IsScalarText text.toList := by
      rcases htext with htext | htext <;> rw [htext]
      · exact .decimal hwhole hfraction
      · exact .minusDecimal hwhole hfraction
    have hnone := read?_decimal_eq_none_iff hwhole hfraction hv htext
    rw [String.ofList_toList] at hnone
    exact ⟨hnone, (hagree hscalar).eq_none_iff.symm.trans hnone⟩

/-- A decimal with leading zeros behind a minus, and one that is beyond all finite numbers. -/
theorem minusDecimal_denotes_read_value :
    IsScalarText "-007.50".toList ∧
      (∃ e, Expr.ofSource? "-007.50" = some e ∧
        evalExpr .empty 2 e .initial = .ok (.float32 (-7.5)) .initial) ∧
      Value.read? "-9999999999999999999999999999999999999999.5" = none ∧
      Expr.ofSource? "-9999999999999999999999999999999999999999.5" = none := by
  have htext : IsScalarText "-007.50".toList :=
    @IsScalarText.minusDecimal "007".toList "50".toList (by decide) (by decide)
  have hread : Value.read? "-007.50" = some (.float32 (-7.5)) := by decide +kernel
  have hinfinite := literals_denote_read_values.2.2.2
    "-9999999999999999999999999999999999999999.5"
    "9999999999999999999999999999999999999999".toList "5".toList (by decide) (by decide)
    (.inr (by decide)) _ rfl
  exact ⟨htext, (literals_denote_read_values.1 "-007.50" htext _ .empty .initial 2 le_rfl).mp hread,
    hinfinite.1.mpr (by decide +kernel), hinfinite.2.mpr (by decide +kernel)⟩

end TypedImp
