import TypedImp.Proofs.Grammar.Fuel
import TypedImp.Proofs.Printing.Reading

/-!
# Reading expressions back

The words of an expression are parsed to the expression.  What can go wrong is that parsing goes on
where the expression ends or stops where it should go on, so the statement that is proved by
induction speaks of what stands before the words and of what follows them.

## The two conditions on precedences

Parsing above some precedence takes what binds more tightly, so an expression has to bind more
tightly than what stands before it; an operator before its operand is an exception, since it is
taken by the rule of its first token.  Behind the expression nothing may bind more tightly than it
does.  Parentheses are written exactly where one of the two would fail.

* `readInteger?_of_spanSign`: integers with bounds, from which those of thirty-two and of sixty-four
  bits follow.
* `number_integer`, `number_decimal`: number literals.
* `ReadsBack`: expressions that are read back, with one lemma for each kind of expression.
* `readsBack_wrapped`: parentheses where they are needed.
* `readsBack`: all expressions that can be written.
-/

namespace TypedImp

open Parse

/-! ## Number literals -/

theorem spanSign_of_isDigits {text : List Char} (h : isDigits text = true) :
    Decimal.spanSign text = (false, text) := by
  unfold Decimal.spanSign
  split
  · exact absurd rfl (head_ne_of_isDigits h).1
  · exact absurd rfl (head_ne_of_isDigits h).2
  · rfl

/-- What is read lies within the bounds. -/
theorem bounds_of_readInteger? {least greatest value : Int} {cs : List Char}
    (h : readInteger? least greatest cs = some value) : least ≤ value ∧ value ≤ greatest := by
  simp only [readInteger?, Option.ite_none_left_eq_some, Option.ite_none_right_eq_some] at h
  obtain ⟨-, hbounds, heq⟩ := h
  rwa [← Option.some.inj heq]

/-- A run of digits behind a sign, or behind none, reads as the integer that it denotes, if this
lies within the bounds. -/
theorem readInteger?_of_spanSign {text digits : List Char} {negative : Bool}
    (hsign : Decimal.spanSign text = (negative, digits)) (h : isDigits digits = true)
    {least greatest value : Int} : readInteger? least greatest text = some value ↔
      (least ≤ value ∧ value ≤ greatest) ∧
        value = if negative then -(digitsValue digits : Int) else digitsValue digits := by
  have hall : ¬ (digits.isEmpty = true ∨ (!digits.all Char.isDigit) = true) := by
    simpa [isDigits] using h
  simp only [readInteger?, hsign, if_neg hall, Option.ite_none_right_eq_some, Option.some.injEq]
  constructor
  · rintro ⟨hbounds, rfl⟩
    exact ⟨hbounds, rfl⟩
  · rintro ⟨hbounds, rfl⟩
    exact ⟨hbounds, rfl⟩

theorem readInteger?_eq_some_iff {text : List Char} (h : isDigits text = true)
    {least greatest value : Int} : readInteger? least greatest text = some value ↔
      (least ≤ value ∧ value ≤ greatest) ∧ value = digitsValue text :=
  readInteger?_of_spanSign (spanSign_of_isDigits h) h

/-- Within the bounds of thirty-two bits nothing wraps around. -/
theorem readInt32?_eq_some {cs : List Char} {value : Int32} : readInt32? cs = some value ↔
    readInteger? Int32.minValue.toInt Int32.maxValue.toInt cs = some value.toInt := by
  constructor
  · intro h
    obtain ⟨n, hread, rfl⟩ := Option.map_eq_some_iff.mp h
    obtain ⟨hmin, hmax⟩ := bounds_of_readInteger? hread
    rw [Int32.toInt_ofInt_of_le hmin (Int.lt_add_one_of_le hmax), hread]
  · intro h
    rw [readInt32?, h, Option.map_some, Int32.ofInt_toInt]

/-- Within the bounds of sixty-four bits nothing wraps around. -/
theorem readInt64?_eq_some {cs : List Char} {value : Int64} : readInt64? cs = some value ↔
    readInteger? Int64.minValue.toInt Int64.maxValue.toInt cs = some value.toInt := by
  constructor
  · intro h
    obtain ⟨n, hread, rfl⟩ := Option.map_eq_some_iff.mp h
    obtain ⟨hmin, hmax⟩ := bounds_of_readInteger? hread
    rw [Int64.toInt_ofInt_of_le hmin (Int.lt_add_one_of_le hmax), hread]
  · intro h
    rw [readInt64?, h, Option.map_some, Int64.ofInt_toInt]

/-- A run of digits reads as the integer that it denotes, up to the greatest one. -/
theorem readInt32?_eq_some_iff {text : List Char} (h : isDigits text = true) {value : Int32} :
    readInt32? text = some value ↔
      digitsValue text ≤ 2147483647 ∧ value.toInt = digitsValue text := by
  rw [readInt32?_eq_some, readInteger?_eq_some_iff h,
    show Int32.minValue.toInt = -2147483648 from rfl,
    show Int32.maxValue.toInt = 2147483647 from rfl]
  omega

/-- Among runs of digits, those that denote the magnitude of the least integer are read as it. -/
theorem readInt64?_leastMagnitude {text : List Char} (h : isDigits text = true) :
    readInt64? text = some (Int64.ofNat leastMagnitude) ↔ digitsValue text = leastMagnitude := by
  rw [readInt64?_eq_some, readInteger?_eq_some_iff h,
    show Int64.minValue.toInt = -9223372036854775808 from rfl,
    show Int64.maxValue.toInt = 9223372036854775807 from rfl,
    show (Int64.ofNat leastMagnitude).toInt = 2147483648 from rfl, leastMagnitude]
  omega

theorem Cursor.peek_one {c : Cursor} (hc : c.Ends) (hcurrent : c.current.kind ≠ .endOfInput) :
    c.peek 1 = c.advance.current := by
  obtain ⟨t, ts, hahead⟩ := List.exists_cons_of_ne_nil (Cursor.ahead_ne_nil hc hcurrent)
  rw [Cursor.advance_of_cons hcurrent hahead, Cursor.peek, hahead]
  rfl

theorem formsDecimal_of_ne {whole point fraction : Token} (h : point.kind ≠ .dot) :
    formsDecimal whole point fraction = false := by
  simp [formsDecimal, h]

/-- Digits that are not followed by a point and more digits are an integer, if they denote one that
fits. -/
theorem number_integer {c : Cursor}
    (hforms : formsDecimal c.current c.advance.current (c.advance.peek 1) = false) :
    number c = match readInt32? c.current.value.toList with
      | some value => .ok (.number (.int32 value) c.current.value c.current.span) c.advance
      | none =>
        .error (.fault ⟨.unreadableNumber c.current.value, c.current.span⟩) c.advance := by
  unfold number
  change (if formsDecimal c.current c.advance.current (c.advance.peek 1) then _ else _ : Parse Expr)
    c.advance = _
  rw [if_neg (Bool.eq_false_iff.mp hforms)]
  cases readInt32? c.current.value.toList <;> rfl

/-- Digits with a point among them are a floating-point number, if they denote a finite one. -/
theorem number_decimal {c : Cursor} (hc : c.Ends)
    (hjoined : formsDecimal c.current c.advance.current c.advance.advance.current = true) :
    number c =
      match readFloat32? (c.current.value ++ "." ++ c.advance.advance.current.value).toList with
      | some value => .ok (.number (.float32 value)
          (c.current.value ++ "." ++ c.advance.advance.current.value)
          (c.current.span.join c.advance.advance.current.span)) c.advance.advance.advance
      | none => .error (.fault
          ⟨.unreadableNumber (c.current.value ++ "." ++ c.advance.advance.current.value),
            c.current.span.join c.advance.advance.current.span⟩) c.advance.advance.advance := by
  have hpoint : c.advance.current.kind ≠ .endOfInput := by
    simp only [formsDecimal, Bool.and_eq_true, decide_eq_true_eq] at hjoined
    rw [hjoined.1.1.1]
    decide
  have hpeek := Cursor.peek_one hc.advance hpoint
  unfold number
  change (if formsDecimal c.current c.advance.current (c.advance.peek 1) then _ else _ : Parse Expr)
    c.advance = _
  rw [hpeek, if_pos hjoined, bind_of_ok (next_apply _), bind_of_ok (next_apply _)]
  cases readFloat32? (c.current.value ++ "." ++ c.advance.advance.current.value).toList <;> rfl

/-! ## What is read back -/

/-- Where the words of an expression stand, parsing comes to the expression itself, up to places,
and goes on behind the words.  What follows the words must not go on with them: it binds no more
tightly than the expression does, and it is no point.  An operator before its operand is read
whatever stands before it, all else has to bind more tightly than that. -/
def ReadsBack (e : Expr) : Prop :=
  ∀ ⦃c c' : Cursor⦄ ⦃above : Precedence⦄, c.Ends → c.Spells e.words c' →
    (e.precedence ≠ .unary → above < e.precedence) → c'.current.kind ≠ .dot →
    Stopped e.precedence c' →
    ∃ e', e'.erase = e.erase ∧ exprAbove above c = extension above e' c'

/-- Expressions that are read by the rule of their first token alone. -/
theorem readsBack_of_start {e : Expr} (h : ∀ {c c' : Cursor}, c.Ends → c.Spells e.words c' →
    c'.current.kind ≠ .dot → ∃ rule e', Grammar.standard.start c.current.kind = some rule ∧
      e'.erase = e.erase ∧ ample (startExpr .standard · rule) c = .ok e' c') : ReadsBack e := by
  intro c c' above hc hspells _ hdot _
  obtain ⟨rule, e', hstart, herase, hok⟩ := h hc hspells hdot
  exact ⟨e', herase, (exprAbove_of_start hc hstart above).trans (bind_of_ok hok)⟩

/-- What a literal or a name is read as, by the kind of its first token. -/
theorem primary_apply (c : Cursor) : primary c =
    match c.current.kind with
    | .number => number c
    | .identifier => .ok (.name c.current.value c.current.span) c.advance
    | .string => .ok (.string c.current.value c.current.span) c.advance
    | .trueWord => .ok (.bool true c.current.span) c.advance
    | .falseWord => .ok (.bool false c.current.span) c.advance
    | _ => .error (.fault c.unexpected) c := by
  obtain ⟨before, ⟨kind, value, span⟩, ahead⟩ := c
  cases kind <;> rfl

/-- Literals and names that are a single token, or three for a decimal. -/
theorem readsBack_of_primary {e : Expr} (h : ∀ {c c' : Cursor}, c.Ends → c.Spells e.words c' →
    c'.current.kind ≠ .dot → Grammar.standard.start c.current.kind = some .primary ∧
      ∃ e', e'.erase = e.erase ∧ primary c = .ok e' c') : ReadsBack e := by
  refine readsBack_of_start fun hc hspells hdot => ?_
  obtain ⟨hstart, e', herase, hok⟩ := h hc hspells hdot
  exact ⟨.primary, e', hstart, herase,
    (ample_startExpr_primary hc (ne_end_of_start hstart)).trans hok⟩

/-- Literals and names that are a single token. -/
theorem readsBack_token {e : Expr} {kind : TokenKind} {text : List Char}
    (hwords : e.words = [.token kind text]) (hstart : Grammar.standard.start kind = some .primary)
    (h : ∀ c : Cursor, c.current.kind = kind → c.current.value.toList = text →
      ∃ e', e'.erase = e.erase ∧ primary c = .ok e' c.advance) : ReadsBack e := by
  refine readsBack_of_primary fun {c c'} _ hspells _ => ?_
  rw [hwords] at hspells
  obtain ⟨kind_eq, value_eq, -, more⟩ := hspells.of_token
  cases more
  exact ⟨kind_eq ▸ hstart, h c kind_eq value_eq⟩

theorem readsBack_name {n : String} {span : Span} : ReadsBack (.name n span) := by
  refine readsBack_token rfl rfl fun c hkind hvalue =>
    ⟨.name c.current.value c.current.span, ?_, by rw [primary_apply, hkind]⟩
  rw [Expr.erase, Expr.erase, String.toList_inj.mp hvalue]

theorem readsBack_string {value : String} {span : Span} : ReadsBack (.string value span) := by
  refine readsBack_token rfl rfl fun c hkind hvalue =>
    ⟨.string c.current.value c.current.span, ?_, by rw [primary_apply, hkind]⟩
  rw [Expr.erase, Expr.erase, String.toList_inj.mp hvalue]

theorem readsBack_bool {value : Bool} {span : Span} : ReadsBack (.bool value span) := by
  cases value with
  | true =>
    exact readsBack_token rfl rfl fun c hkind _ =>
      ⟨.bool true c.current.span, rfl, by rw [primary_apply, hkind]; rfl⟩
  | false =>
    exact readsBack_token rfl rfl fun c hkind _ =>
      ⟨.bool false c.current.span, rfl, by rw [primary_apply, hkind]; rfl⟩

theorem readsBack_integer {value : Int32} {text : String} {span : Span}
    (hdigits : isDigits text.toList = true) (hle : digitsValue text.toList ≤ 2147483647)
    (hvalue : value.toInt = digitsValue text.toList) :
    ReadsBack (.number (.int32 value) text span) := by
  refine readsBack_of_primary fun {c c'} _ hspells hdot => ?_
  rw [Expr.words, numberWords_of_isDigits hdigits] at hspells
  obtain ⟨kind_eq, value_eq, -, more⟩ := hspells.of_token
  cases more
  have hread : readInt32? c.current.value.toList = some value := by
    rw [value_eq]
    exact (readInt32?_eq_some_iff hdigits).mpr ⟨hle, hvalue⟩
  have hnumber : primary c = number c := by rw [primary_apply, kind_eq]
  have hinteger := number_integer (formsDecimal_of_ne hdot)
  rw [hread] at hinteger
  refine ⟨by rw [kind_eq]; rfl, _, ?_, hnumber.trans hinteger⟩
  rw [Expr.erase, Expr.erase, String.toList_inj.mp value_eq]

theorem readsBack_decimal {value : Float32} {text : String} {whole fraction : List Char}
    {span : Span} (htext : text.toList = whole ++ '.' :: fraction) (hwhole : isDigits whole = true)
    (hread : readFloat32? text.toList = some value) :
    ReadsBack (.number (.float32 value) text span) := by
  refine readsBack_of_primary fun {c c'} hc hspells hdot => ?_
  rw [Expr.words, htext, numberWords_of_point hwhole] at hspells
  cases hspells with
  | decimal kind_eq whole_eq fraction_eq joined more =>
    cases more
    have htext' : c.current.value ++ "." ++ c.advance.advance.current.value = text := by
      rw [← String.toList_inj, String.toList_append, String.toList_append, whole_eq, fraction_eq,
        htext, List.append_assoc]
      rfl
    have hnumber : primary c = number c := by rw [primary_apply, kind_eq]
    have hok := number_decimal hc joined
    rw [htext', hread] at hok
    exact ⟨by rw [kind_eq]; rfl, _, by rw [Expr.erase, Expr.erase], hnumber.trans hok⟩

/-- The least integer, which is read together with its sign. -/
theorem readsBack_least {text : String} {digits : List Char} {span : Span}
    (htext : text.toList = '-' :: digits) (hdigits : isDigits digits = true)
    (hvalue : digitsValue digits = leastMagnitude) :
    ReadsBack (.number (.int32 Int32.minValue) text span) := by
  refine readsBack_of_start fun {c c'} hc hspells hdot => ?_
  rw [Expr.words, htext, numberWords] at hspells
  obtain ⟨kind_eq, -, visible, more⟩ := hspells.of_token
  obtain ⟨kind_eq', value_eq, visible', more⟩ := more.of_token
  cases more
  have hpeek := Cursor.peek_one hc.advance (kind_eq' ▸ visible')
  have hleast : atLeastMagnitude c.advance = true := by
    simp [atLeastMagnitude, kind_eq', hpeek, hdot, value_eq,
      (readInt64?_leastMagnitude hdigits).mpr hvalue]
  refine ⟨.operator, _, by rw [kind_eq]; rfl, ?_,
    ample_startExpr_least hc (kind_eq ▸ visible) (by rw [kind_eq, hleast]; rfl)⟩
  have htext' : "-" ++ c.advance.current.value = text := by
    rw [← String.toList_inj, String.toList_append, value_eq, htext]
    rfl
  rw [Expr.erase, Expr.erase, htext']

theorem readsBack_number {value : Literal} {text : String} {span : Span}
    (h : value.Written text.toList) : ReadsBack (.number value text span) := by
  cases value with
  | int32 value =>
    rcases h with ⟨hdigits, hle, hvalue⟩ | ⟨rfl, digits, htext, hdigits, hvalue⟩
    · exact readsBack_integer hdigits hle hvalue
    · exact readsBack_least htext hdigits hvalue
  | float32 value =>
    obtain ⟨whole, fraction, htext, hwhole, -, hread⟩ := h
    exact readsBack_decimal htext hwhole hread

/-! ## Parentheses -/

theorem stopped_of_follow_none {c : Cursor} {above : Precedence}
    (h : Grammar.standard.follow c.current.kind = none) : Stopped above c := by
  intro p rule hsome
  rw [h] at hsome
  cases hsome

theorem Parse.Stopped.mono {c : Cursor} {p q : Precedence} (h : Stopped p c) (hpq : ¬ q < p) :
    Stopped q c := by
  intro r rule hfollow (hr : q.rank < r.rank)
  have hle : ¬ q.rank < p.rank := hpq
  have hnot : ¬ p.rank < r.rank := h r rule hfollow
  omega

theorem stopped_of_follow {c : Cursor} {above p : Precedence} {rule : FollowRule}
    (h : Grammar.standard.follow c.current.kind = some (p, rule)) (hnot : ¬ above < p) :
    Stopped above c := by
  intro q rule' hsome
  rw [h] at hsome
  cases hsome
  exact hnot

theorem lt_of_lt_of_not_lt {p q r : Precedence} (h : p < q) (hnot : ¬ r < q) : p < r :=
  Nat.lt_of_lt_of_le h (Nat.le_of_not_lt hnot)

theorem lowest_lt_precedence (e : Expr) : Precedence.lowest < e.precedence := by
  cases e with
  | binary op => cases op <;> exact Nat.zero_lt_succ _
  | _ => exact Nat.zero_lt_succ _

/-- An expression is read back whole where what follows continues no expression. -/
theorem ReadsBack.exprAbove_lowest {e : Expr} (h : ReadsBack e) {c c' : Cursor} (hc : c.Ends)
    (hspells : c.Spells e.words c') (hdot : c'.current.kind ≠ .dot)
    (hnone : Grammar.standard.follow c'.current.kind = none) :
    ∃ e', e'.erase = e.erase ∧ exprAbove .lowest c = .ok e' c' := by
  obtain ⟨e', herase, heq⟩ := h hc hspells (fun _ => lowest_lt_precedence e) hdot
    (stopped_of_follow_none hnone)
  exact ⟨e', herase,
    heq.trans (extension_of_stopped (hspells.moves.ends hc) (stopped_of_follow_none hnone) e')⟩

/-- With or without parentheses, as required. -/
theorem readsBack_wrapped {e : Expr} (h : ReadsBack e) {needed : Bool} {c c' : Cursor}
    {above : Precedence} (hc : c.Ends) (hspells : c.Spells (wrapped needed e.words) c')
    (hdot : c'.current.kind ≠ .dot)
    (hbare : needed = false →
      (e.precedence ≠ .unary → above < e.precedence) ∧ Stopped e.precedence c') :
    ∃ e', e'.erase = e.erase ∧ exprAbove above c = extension above e' c' := by
  cases needed with
  | false =>
    obtain ⟨habove, hstop⟩ := hbare rfl
    exact h hc hspells habove hdot hstop
  | true =>
    rw [wrapped, if_pos rfl] at hspells
    obtain ⟨kind_eq, -, visible, more⟩ := hspells.of_token
    obtain ⟨d, hinner, hclose⟩ := Cursor.spells_append more
    have hd := hinner.moves.ends hc.advance
    obtain ⟨kind_eq', -, visible', more⟩ := hclose.of_token
    cases more
    have hnone : Grammar.standard.follow d.current.kind = none := by
      rw [kind_eq']
      rfl
    obtain ⟨e', herase, hok⟩ :=
      h.exprAbove_lowest hc.advance hinner (by rw [kind_eq']; decide) hnone
    refine ⟨e', herase, ?_⟩
    have hgroup : ample (startExpr .standard · .group) c = .ok e' d.advance := by
      rw [ample_startExpr_group hc (kind_eq ▸ visible), bind_of_ok (next_apply c),
        bind_of_ok hok, bind_of_ok (expectFor_apply kind_eq' _)]
      rfl
    have hstart : Grammar.standard.start c.current.kind = some .group := by
      rw [kind_eq]
      rfl
    rw [exprAbove_of_start hc hstart, bind_of_ok hgroup]

/-! ## Operators -/

theorem unaryOp_ofKind (op : UnaryOp) : UnaryOp.ofKind op.kind = op := by
  cases op <;> rfl

theorem atLeastMagnitude_of_ne {c : Cursor} (h : c.current.kind ≠ .number) :
    atLeastMagnitude c = false := by
  simp [atLeastMagnitude, h]

theorem atLeastMagnitude_wrapped {c c' : Cursor} {needed : Bool} {inner ws : List Word}
    (hspells : c.Spells (wrapped needed inner ++ ws) c')
    (hinner : c.Spells (inner ++ ws) c' → atLeastMagnitude c = false) :
    atLeastMagnitude c = false := by
  cases needed with
  | false => exact hinner hspells
  | true =>
    refine atLeastMagnitude_of_ne ?_
    rw [show c.current.kind = .openParen from hspells.kind_eq]
    decide

/-- Before the words of an expression there is never the mere magnitude of the least integer. -/
theorem not_atLeastMagnitude {e : Expr} (h : e.WellFormed) {c c' : Cursor} {ws : List Word}
    (hc : c.Ends) (hspells : c.Spells (e.words ++ ws) c') : atLeastMagnitude c = false := by
  have hkind := atLeastMagnitude_of_ne (c := c)
  induction h generalizing ws with
  | @number value text span written =>
    rw [Expr.words] at hspells
    cases value with
    | int32 value =>
      rcases written with ⟨hdigits, hle, -⟩ | ⟨-, digits, htext, -, -⟩
      · rw [numberWords_of_isDigits hdigits] at hspells
        obtain ⟨kind_eq, value_eq, -, -⟩ := hspells.of_token
        have hne : ¬ readInt64? text.toList = some (Int64.ofNat leastMagnitude) := by
          rw [readInt64?_leastMagnitude hdigits, leastMagnitude]
          omega
        simp [atLeastMagnitude, value_eq, hne]
      · rw [htext] at hspells
        exact hkind (by rw [show c.current.kind = .dash from hspells.kind_eq]; decide)
    | float32 value =>
      obtain ⟨whole, fraction, htext, hwhole, -, -⟩ := written
      rw [htext, numberWords_of_point hwhole] at hspells
      cases hspells with
      | decimal kind_eq _ _ joined =>
        simp only [formsDecimal, Bool.and_eq_true, decide_eq_true_eq] at joined
        have hpeek := Cursor.peek_one hc (by rw [kind_eq]; decide)
        simp [atLeastMagnitude, hpeek, joined.1.1.1]
  | string => exact hkind (by rw [show c.current.kind = .string from hspells.kind_eq]; decide)
  | @bool value =>
    cases value with
    | true => exact hkind (by rw [show c.current.kind = .trueWord from hspells.kind_eq]; decide)
    | false => exact hkind (by rw [show c.current.kind = .falseWord from hspells.kind_eq]; decide)
  | name => exact hkind (by rw [show c.current.kind = .identifier from hspells.kind_eq]; decide)
  | @unary op =>
    rw [Expr.words] at hspells
    refine hkind ?_
    rw [show c.current.kind = op.kind from hspells.kind_eq]
    cases op <;> decide
  | binary _ _ ih =>
    rw [Expr.words, List.append_assoc] at hspells
    exact atLeastMagnitude_wrapped hspells ih
  | call _ _ ih =>
    rw [Expr.words, List.append_assoc] at hspells
    exact atLeastMagnitude_wrapped hspells ih

theorem readsBack_unary {op : UnaryOp} {e : Expr} {span : Span} (h : ReadsBack e)
    (hformed : e.WellFormed) : ReadsBack (.unary op e span) := by
  intro c c' above hc hspells _ hdot (hstop : Stopped .unary c')
  rw [Expr.words] at hspells
  obtain ⟨kind_eq, -, visible, more⟩ := hspells.of_token
  have hbare : decide (e.precedence < .unary) = false →
      (e.precedence ≠ .unary → Precedence.unary < e.precedence) ∧ Stopped e.precedence c' := by
    intro hneeded
    have hnot := of_decide_eq_false hneeded
    refine ⟨fun hne => ?_, hstop.mono hnot⟩
    revert hnot hne
    cases e.precedence <;> decide
  obtain ⟨e', herase, heq⟩ := readsBack_wrapped h hc.advance more hdot hbare
  have hoperand : exprAbove .unary c.advance = .ok e' c' :=
    heq.trans (extension_of_stopped (more.moves.ends hc.advance) hstop e')
  have hleast : atLeastMagnitude c.advance = false :=
    atLeastMagnitude_wrapped (by rwa [← List.append_nil (wrapped _ _)] at more)
      (not_atLeastMagnitude hformed hc.advance)
  have hstart : Grammar.standard.start c.current.kind = some .operator := by
    rw [kind_eq]
    cases op <;> rfl
  have hok : ample (startExpr .standard · .operator) c =
      .ok (.unary op e' (c.current.span.join e'.span)) c' := by
    rw [ample_startExpr_operator hc (kind_eq ▸ visible) (by rw [hleast]; simp),
      bind_of_ok (next_apply c), bind_of_ok hoperand, kind_eq, unaryOp_ofKind]
    rfl
  refine ⟨_, ?_, (exprAbove_of_start hc hstart above).trans (bind_of_ok hok)⟩
  rw [Expr.erase, Expr.erase, herase]

theorem readsBack_binary {op : BinaryOp} {left right : Expr} {span : Span} (hleft : ReadsBack left)
    (hright : ReadsBack right) : ReadsBack (.binary op left right span) := by
  intro c c' above hc hspells habove hdot (hstop : Stopped op.precedence c')
  have habove' : above < op.precedence := habove (by cases op <;> nofun)
  rw [Expr.words] at hspells
  obtain ⟨d, hspells, hmore⟩ := Cursor.spells_append hspells
  have hd := hspells.moves.ends hc
  obtain ⟨kind_eq, -, visible, more⟩ := hmore.of_token
  have hfollow : Grammar.standard.follow d.current.kind = some (op.precedence, .operator) := by
    rw [kind_eq]
    exact op.follow_kind
  -- A left operand without parentheses binds at least as tightly as `op`, so reading it stops at
  -- `op`; a right one binds more tightly, so whatever stops `op` stops it too.
  obtain ⟨left', heraseLeft, heqLeft⟩ := readsBack_wrapped hleft hc hspells
    (by rw [kind_eq]; cases op <;> decide) (by
      intro hneeded
      have hnot := of_decide_eq_false hneeded
      exact ⟨fun _ => lt_of_lt_of_not_lt habove' hnot, stopped_of_follow hfollow hnot⟩)
  obtain ⟨right', heraseRight, heqRight⟩ := readsBack_wrapped hright
    hd.advance more hdot (by
      intro hneeded
      have hlt := Classical.not_not.mp (of_decide_eq_false hneeded)
      exact ⟨fun _ => hlt, hstop.mono (Nat.lt_asymm hlt)⟩)
  have hoperand : exprAbove op.precedence d.advance = .ok right' c' :=
    heqRight.trans (extension_of_stopped (more.moves.ends hd.advance) hstop right')
  have hok : ample (followExpr .standard · op.precedence .operator left') d =
      .ok (.binary op left' right' (left'.span.join right'.span)) c' := by
    rw [ample_followExpr_operator hd (kind_eq ▸ visible) (by rw [kind_eq, op.ofKind?_kind]),
      bind_of_ok (next_apply d), bind_of_ok hoperand]
    rfl
  refine ⟨_, ?_, heqLeft.trans
    ((extension_of_follow hd hfollow habove' left').trans (bind_of_ok hok))⟩
  rw [Expr.erase, Expr.erase, heraseLeft, heraseRight]

/-! ## Calls -/

/-- With any fuel that is enough an expression is read back whole. -/
theorem ReadsBack.gives {e : Expr} (h : ReadsBack e) {c c' : Cursor} (hc : c.Ends)
    (hspells : c.Spells e.words c') (hdot : c'.current.kind ≠ .dot)
    (hnone : Grammar.standard.follow c'.current.kind = none) :
    ∃ e', e'.erase = e.erase ∧ Gives 3 (expr .standard · .lowest) c e' c' := by
  obtain ⟨e', herase, hok⟩ := h.exprAbove_lowest hc hspells hdot hnone
  exact ⟨e', herase, fun fuel hfuel => (exprAbove_eq hc .lowest hfuel).symm.trans hok⟩

/-- The first word of an expression begins one. -/
theorem ReadsBack.start_ne_none {e : Expr} (h : ReadsBack e) {c c' : Cursor} (hc : c.Ends)
    (hspells : c.Spells e.words c') (hdot : c'.current.kind ≠ .dot)
    (hnone : Grammar.standard.follow c'.current.kind = none) :
    Grammar.standard.start c.current.kind ≠ none := by
  obtain ⟨e', -, hok⟩ := h.exprAbove_lowest hc hspells hdot hnone
  intro hstart
  rw [exprAbove_of_start_none hc hstart] at hok
  cases hok

/-- Expressions are read back as items of a list. -/
theorem ReadsBack.item {e : Expr} (h : ReadsBack e) :
    Gives.Item 3 (expr .standard · .lowest) Expr.words Expr.erase e := by
  intro c c' hc hspells hnext
  have hdot : c'.current.kind ≠ .dot := by rcases hnext with h | h <;> rw [h] <;> decide
  have hnone : Grammar.standard.follow c'.current.kind = none := by
    rcases hnext with h | h <;> rw [h] <;> rfl
  refine ⟨fun hclose => ?_, h.gives hc hspells hdot hnone⟩
  refine h.start_ne_none hc hspells hdot hnone ?_
  rw [hclose]
  rfl

theorem readsBack_call {callee : Expr} {arguments : List Expr} {span : Span}
    (hcallee : ReadsBack callee) (harguments : ∀ argument ∈ arguments, ReadsBack argument) :
    ReadsBack (.call callee arguments span) := by
  intro c c' above hc hspells habove _ _
  have habove' : above < .call := habove nofun
  rw [Expr.words, Expr.wordLists_eq_map] at hspells
  obtain ⟨d, hspells, hmore⟩ := Cursor.spells_append hspells
  have hd := hspells.moves.ends hc
  obtain ⟨kind_eq, -, visible, more⟩ := hmore.of_token
  have hfollow : Grammar.standard.follow d.current.kind = some (.call, .call) := by
    rw [kind_eq]
    rfl
  obtain ⟨callee', heraseCallee, heqCallee⟩ := readsBack_wrapped hcallee hc hspells
    (by rw [kind_eq]; decide) (by
      intro hneeded
      have hnot := of_decide_eq_false hneeded
      exact ⟨fun _ => lt_of_lt_of_not_lt habove' hnot, stopped_of_follow hfollow hnot⟩)
  obtain ⟨b, hlist, hclose⟩ := Cursor.spells_append more
  obtain ⟨kind_eq', -, -, more'⟩ := hclose.of_token
  cases more'
  obtain ⟨arguments', hsame, hgives⟩ := Gives.untilParen
    (fun argument hmem => (harguments argument hmem).item) (by omega) hd.advance hlist kind_eq'
  have hlist : ample (fun fuel => untilParen (expr .standard fuel .lowest) fuel) d.advance =
      .ok arguments' b := hgives _ (le_fuel d.advance (by omega))
  have hok : ample (followExpr .standard · .call .call callee') d =
      .ok (.call callee' arguments' (callee'.span.join b.current.span)) b.advance := by
    rw [ample_followExpr_call hd (kind_eq ▸ visible), bind_of_ok (next_apply d),
      bind_of_ok hlist, bind_of_ok (expectFor_apply kind_eq' _)]
    rfl
  refine ⟨_, ?_, heqCallee.trans
    ((extension_of_follow hd hfollow habove' callee').trans (bind_of_ok hok))⟩
  rw [Expr.erase, Expr.erase, heraseCallee, Expr.eraseAll_eq_map, Expr.eraseAll_eq_map, hsame]

/-! ## All expressions -/

/-- **Every expression that can be written is read back.** -/
theorem readsBack {e : Expr} (h : e.WellFormed) : ReadsBack e := by
  induction h with
  | number written => exact readsBack_number written
  | string => exact readsBack_string
  | bool => exact readsBack_bool
  | name => exact readsBack_name
  | unary inner ih => exact readsBack_unary ih inner
  | binary _ _ ihLeft ihRight => exact readsBack_binary ihLeft ihRight
  | call _ _ ihCallee ihArguments => exact readsBack_call ihCallee ihArguments

end TypedImp
