import TypedImp.Proofs.Grammar.ProgramFuel
import TypedImp.Proofs.Printing.Expressions
import TypedImp.Proofs.Printing.Programs

/-!
# Texts that read the same

Two texts with the same tokens may differ in blanks, in comments and in the breaks between lines.
Parsing looks at kinds and values of tokens, and it copies their places into trees and errors; so
two such texts are parsed into trees that differ in places only, or parsing stops at corresponding
tokens.

## The one place where positions count

Digits, a point and digits are one number if they are written without anything between them, and
three tokens otherwise.  That is the only decision that is made by positions.  So texts read the
same if, besides their tokens, they also have the same numbers with a point.

## How the two readings are kept together

Both cursors have passed the same number of tokens.  This is kept by every step, since whether a
cursor moves depends on the kind of its token; and it says which token of one list corresponds to
which of the other.  Computations are compared in pairs, with one law for each way to build one.

* `TightAt`, `SameWords`: which tokens read the same.
* `Cursor.Twin`: two cursors that have passed the same number of tokens.
* `Alike`: two computations that do the same on such cursors.
* `expr_alike`, `stmt_alike`, `function_alike`, `definitions_alike`: all functions of the grammar.
* `parse_alike`: **whole programs**.
-/

namespace TypedImp

/-! ## Tokens that read the same -/

/-- The tokens from place `i` on are digits, a point and digits, with nothing between them. -/
def TightAt (tokens : List Token) (i : Nat) : Prop :=
  ∃ whole ∈ tokens[i]?, ∃ point ∈ tokens[i + 1]?, ∃ fraction ∈ tokens[i + 2]?,
    whole.kind = .number ∧ point.kind = .dot ∧ fraction.kind = .number ∧
      whole.span.stop.offset = point.span.start.offset ∧
      point.span.stop.offset = fraction.span.start.offset

instance (tokens : List Token) (i : Nat) : Decidable (TightAt tokens i) := by
  delta TightAt
  infer_instance

/-- Two lists of tokens say the same: they have the same kinds and values in the same order, and
the same of their numbers have a point. -/
structure SameWords (tokens tokens' : List Token) : Prop where
  words : tokens.map Token.word = tokens'.map Token.word
  tight : ∀ i, TightAt tokens i ↔ TightAt tokens' i

/-- Past its end a list has no numbers, so only finitely many places have to be looked at. -/
theorem sameWords_iff {tokens tokens' : List Token} : SameWords tokens tokens' ↔
    tokens.map Token.word = tokens'.map Token.word ∧
      ∀ i < tokens.length, TightAt tokens i ↔ TightAt tokens' i := by
  constructor
  · rintro ⟨hwords, htight⟩
    exact ⟨hwords, fun i _ => htight i⟩
  · rintro ⟨hwords, htight⟩
    refine ⟨hwords, fun i => ?_⟩
    by_cases hi : i < tokens.length
    · exact htight i hi
    · have hlength := congrArg List.length hwords
      rw [List.length_map, List.length_map] at hlength
      constructor
      · rintro ⟨whole, hwhole, -⟩
        exact absurd (List.getElem?_eq_some_iff.mp hwhole).1 hi
      · rintro ⟨whole, hwhole, -⟩
        exact absurd (hlength ▸ (List.getElem?_eq_some_iff.mp hwhole).1) hi

instance (tokens tokens' : List Token) : Decidable (SameWords tokens tokens') :=
  decidable_of_iff _ sameWords_iff.symm

/-- Two tokens that stand at the same place of two lists. -/
structure Token.Twin (tokens tokens' : List Token) (t t' : Token) : Prop where
  same : t.word = t'.word
  placed : ∃ i : Nat, tokens[i]? = some t ∧ tokens'[i]? = some t'

namespace Token.Twin

variable {tokens tokens' : List Token} {t t' : Token}

theorem kind_eq (h : Token.Twin tokens tokens' t t') : t.kind = t'.kind :=
  congrArg Prod.fst h.same

theorem value_eq (h : Token.Twin tokens tokens' t t') : t.value = t'.value :=
  congrArg Prod.snd h.same

theorem description_eq (h : Token.Twin tokens tokens' t t') : t.description = t'.description := by
  unfold Token.description
  rw [h.kind_eq, h.value_eq]

end Token.Twin

/-- Tokens at the same place of lists that say the same. -/
theorem SameWords.twin {tokens tokens' : List Token} (h : SameWords tokens tokens') {i : Nat}
    {t t' : Token} (ht : tokens[i]? = some t) (ht' : tokens'[i]? = some t') :
    Token.Twin tokens tokens' t t' := by
  have hword := congrArg (fun words => words[i]?) h.words
  simp only [List.getElem?_map, ht, ht', Option.map_some] at hword
  exact ⟨Option.some.inj hword, i, ht, ht'⟩

theorem SameWords.length_eq {tokens tokens' : List Token} (h : SameWords tokens tokens') :
    tokens.length = tokens'.length := by
  have hlength := congrArg List.length h.words
  rwa [List.length_map, List.length_map] at hlength

/-! ## Cursors side by side -/

namespace Cursor

/-- A cursor over a list of tokens. -/
def Over (tokens : List Token) (c : Cursor) : Prop :=
  c.before.reverse ++ c.current :: c.ahead = tokens

/-- Two cursors over lists that say the same, with as many tokens behind them. -/
structure Twin (tokens tokens' : List Token) (c c' : Cursor) : Prop where
  same : SameWords tokens tokens'
  reads : c.Over tokens
  reads' : c'.Over tokens'
  position_eq : c.position = c'.position

variable {tokens tokens' : List Token} {c c' : Cursor}

theorem Over.getElem?_current (h : c.Over tokens) : tokens[c.position]? = some c.current := by
  rw [← h, position, List.getElem?_append_right (by rw [List.length_reverse]),
    List.length_reverse, Nat.sub_self]
  rfl

theorem Over.getElem?_ahead (h : c.Over tokens) (n : Nat) :
    tokens[c.position + 1 + n]? = c.ahead[n]? := by
  rw [← h, position, List.getElem?_append_right (by rw [List.length_reverse]; omega),
    List.length_reverse]
  have hindex : c.before.length + 1 + n - c.before.length = n + 1 := by omega
  rw [hindex, List.getElem?_cons_succ]

theorem Over.length_eq (h : c.Over tokens) : tokens.length = c.position + 1 + c.ahead.length := by
  rw [← h, position, List.length_append, List.length_reverse, List.length_cons]
  omega

theorem Over.advance (h : c.Over tokens) : c.advance.Over tokens := by
  unfold Cursor.advance
  split
  · exact h
  · split
    · exact h
    · next t ts hahead =>
      rw [Over, ← h, hahead, List.reverse_cons, List.append_assoc]
      rfl

namespace Twin

theorem current (h : Twin tokens tokens' c c') :
    Token.Twin tokens tokens' c.current c'.current :=
  h.same.twin h.reads.getElem?_current (h.position_eq ▸ h.reads'.getElem?_current)

theorem ahead_length (h : Twin tokens tokens' c c') : c.ahead.length = c'.ahead.length := by
  have hlength := h.reads.length_eq
  have hlength' := h.reads'.length_eq
  rw [h.same.length_eq, h.position_eq] at hlength
  omega

/-- The tokens behind the current ones correspond as well. -/
theorem ahead (h : Twin tokens tokens' c c') {n : Nat} {t t' : Token} (ht : c.ahead[n]? = some t)
    (ht' : c'.ahead[n]? = some t') : Token.Twin tokens tokens' t t' := by
  rw [← h.reads.getElem?_ahead] at ht
  rw [← h.reads'.getElem?_ahead, ← h.position_eq] at ht'
  exact h.same.twin ht ht'

/-- Whether a cursor moves is decided by the kind of its token and by whether one follows. -/
theorem advance (h : Twin tokens tokens' c c') : Twin tokens tokens' c.advance c'.advance := by
  refine ⟨h.same, h.reads.advance, h.reads'.advance, ?_⟩
  have hlength := h.ahead_length
  have hposition := h.position_eq
  unfold Cursor.advance
  rw [h.current.kind_eq]
  split
  · exact hposition
  · cases hahead : c.ahead with
    | nil =>
      rw [hahead, List.length_nil] at hlength
      rw [List.length_eq_zero_iff.mp hlength.symm]
      exact hposition
    | cons t ts =>
      cases hahead' : c'.ahead with
      | nil => rw [hahead, hahead'] at hlength; cases hlength
      | cons t' ts' => exact congrArg Nat.succ hposition

/-- Looking ahead one sees corresponding tokens. -/
theorem peek (h : Twin tokens tokens' c c') (n : Nat) :
    Token.Twin tokens tokens' (c.peek n) (c'.peek n) := by
  have hlength := h.ahead_length
  cases n with
  | zero => exact h.current
  | succ n =>
    simp only [Cursor.peek]
    by_cases hn : n < c.ahead.length
    · have ht := List.getElem?_eq_getElem hn
      have ht' := List.getElem?_eq_getElem (hlength ▸ hn : n < c'.ahead.length)
      rw [ht, ht', Option.getD_some, Option.getD_some]
      exact h.ahead ht ht'
    · -- past the end one sees the last token
      rw [List.getElem?_eq_none (by omega), List.getElem?_eq_none (by omega), Option.getD_none,
        Option.getD_none, List.getLastD_eq_getLast?, List.getLastD_eq_getLast?,
        List.getLast?_eq_getElem?, List.getLast?_eq_getElem?]
      by_cases hempty : c.ahead.length = 0
      · rw [List.getElem?_eq_none (by omega), List.getElem?_eq_none (by omega)]
        exact h.current
      · have hlast : c.ahead.length - 1 < c.ahead.length := by omega
        have ht := List.getElem?_eq_getElem hlast
        have hlast' : c.ahead.length - 1 < c'.ahead.length := hlength ▸ hlast
        have ht' := List.getElem?_eq_getElem hlast'
        rw [← hlength, ht, ht', Option.getD_some, Option.getD_some]
        exact h.ahead ht ht'

end Twin

/-- At digits, whether they are the whole part of a number is what the list of tokens says. -/
theorem Over.formsDecimal_iff (h : c.Over tokens) (hkind : c.current.kind = .number) :
    Parse.formsDecimal c.current c.advance.current (c.advance.peek 1) = true ↔
      TightAt tokens c.position := by
  have hwhole := h.getElem?_current
  have hpoint := h.getElem?_ahead 0
  have hfraction := h.getElem?_ahead 1
  have hne : c.current.kind ≠ .endOfInput := by rw [hkind]; decide
  simp only [Parse.formsDecimal, Bool.and_eq_true, decide_eq_true_eq]
  cases hahead : c.ahead with
  | nil =>
    have hstay : c.advance = c := by rw [Cursor.advance, if_neg hne, hahead]
    constructor
    · rintro ⟨⟨⟨hdot, -⟩, -⟩, -⟩
      rw [hstay, hkind] at hdot
      cases hdot
    · rintro ⟨whole, -, point, hp, -⟩
      rw [hahead] at hpoint
      rw [hpoint] at hp
      cases hp
  | cons point rest =>
    rw [advance_of_cons hne hahead]
    rw [hahead] at hpoint hfraction
    cases rest with
    | nil =>
      constructor
      · -- the last token is seen twice, and cannot be a point and a number at once
        rintro ⟨⟨⟨hdot, hnumber⟩, -⟩, -⟩
        exact absurd (hdot.symm.trans hnumber) (by decide)
      · rintro ⟨whole, -, p, -, fraction, hf, -⟩
        rw [hfraction] at hf
        cases hf
    | cons fraction rest =>
      constructor
      · rintro ⟨⟨⟨hdot, hnumber⟩, hleft⟩, hright⟩
        exact ⟨c.current, hwhole, point, hpoint, fraction, hfraction, hkind, hdot, hnumber, hleft,
          hright⟩
      · rintro ⟨whole, hw, p, hp, f, hf, -, hdot, hnumber, hleft, hright⟩
        obtain rfl := Option.some.inj (hwhole.symm.trans hw)
        obtain rfl := Option.some.inj (hpoint.symm.trans hp)
        obtain rfl := Option.some.inj (hfraction.symm.trans hf)
        exact ⟨⟨⟨hdot, hnumber⟩, hleft⟩, hright⟩

/-- Corresponding digits are both the whole part of a number, or neither is. -/
theorem Twin.formsDecimal_eq (h : Twin tokens tokens' c c') (hkind : c.current.kind = .number) :
    Parse.formsDecimal c'.current c'.advance.current (c'.advance.peek 1) =
      Parse.formsDecimal c.current c.advance.current (c.advance.peek 1) := by
  have hkind' : c'.current.kind = .number := h.current.kind_eq ▸ hkind
  rw [Bool.eq_iff_iff, h.reads.formsDecimal_iff hkind, h.reads'.formsDecimal_iff hkind',
    ← h.position_eq]
  exact (h.same.tight c.position).symm

end Cursor

/-! ## Computations side by side -/

/-- Two errors with one cause, which stand at corresponding tokens. -/
structure Error.Twin (tokens tokens' : List Token) (e e' : Error) : Prop where
  cause_eq : e.cause = e'.cause
  placed : ∃ (i : Nat) (t t' : Token), tokens[i]? = some t ∧ tokens'[i]? = some t' ∧
    e.span.start = t.span.start ∧ e'.span.start = t'.span.start

theorem Token.Twin.error {tokens tokens' : List Token} {t t' : Token} {cause cause' : Cause}
    {span span' : Span} (h : Token.Twin tokens tokens' t t') (hcause : cause = cause')
    (hspan : span.start = t.span.start) (hspan' : span'.start = t'.span.start) :
    Error.Twin tokens tokens' ⟨cause, span⟩ ⟨cause', span'⟩ := by
  obtain ⟨i, ht, ht'⟩ := h.placed
  exact ⟨hcause, i, t, t', ht, ht', hspan, hspan'⟩

/-- Two ends of a computation correspond. -/
inductive AlikeEnd (tokens tokens' : List Token) {α β : Type} (R : α → β → Prop) :
    EStateM.Result Stop Cursor α → EStateM.Result Stop Cursor β → Prop
  | ok {a : α} {b : β} {c c' : Cursor} (related : R a b) (twin : c.Twin tokens tokens' c') :
    AlikeEnd tokens tokens' R (.ok a c) (.ok b c')
  | fault {e e' : Error} {c c' : Cursor} (twin : e.Twin tokens tokens' e') :
    AlikeEnd tokens tokens' R (.error (.fault e) c) (.error (.fault e') c')
  | exhausted {c c' : Cursor} :
    AlikeEnd tokens tokens' R (.error .exhausted c) (.error .exhausted c')

/-- From corresponding cursors on, two computations come to corresponding ends. -/
def Alike (tokens tokens' : List Token) {α β : Type} (R : α → β → Prop) (x : Parse α)
    (y : Parse β) : Prop :=
  ∀ c c' : Cursor, c.Twin tokens tokens' c' → AlikeEnd tokens tokens' R (x c) (y c')

namespace Alike

section

variable {tokens tokens' : List Token} {α β γ δ : Type} {R : α → β → Prop} {S : γ → δ → Prop}

theorem pure {a : α} {b : β} (h : R a b) :
    Alike tokens tokens' R (Pure.pure a) (Pure.pure b) :=
  fun _ _ hc => .ok h hc

theorem exhausted : Alike tokens tokens' R Parse.exhausted Parse.exhausted :=
  fun _ _ _ => .exhausted

theorem raise {e e' : Error} (h : e.Twin tokens tokens' e') :
    Alike tokens tokens' R (Parse.raise e) (Parse.raise e') :=
  fun _ _ _ => .fault h

theorem fail (message : String) :
    Alike tokens tokens' R (Parse.fail message) (Parse.fail message) :=
  fun _ _ hc => .fault (hc.current.error (by rw [hc.current.description_eq]) rfl rfl)

/-- One computation after the other. -/
theorem bind {x : Parse α} {y : Parse β} {f : α → Parse γ} {g : β → Parse δ}
    (hx : Alike tokens tokens' R x y) (hf : ∀ a b, R a b → Alike tokens tokens' S (f a) (g b)) :
    Alike tokens tokens' S (x >>= f) (y >>= g) := by
  intro c c' hc
  have hfirst := hx c c' hc
  change AlikeEnd tokens tokens' S (EStateM.bind x f c) (EStateM.bind y g c')
  unfold EStateM.bind
  generalize x c = end₁ at hfirst ⊢
  generalize y c' = end₂ at hfirst ⊢
  cases hfirst with
  | ok related twin => exact hf _ _ related _ _ twin
  | fault twin => exact .fault twin
  | exhausted => exact .exhausted

theorem get {f : Cursor → Parse γ} {g : Cursor → Parse δ}
    (h : ∀ c c' : Cursor, c.Twin tokens tokens' c' → Alike tokens tokens' S (f c) (g c')) :
    Alike tokens tokens' S (MonadState.get >>= f) (MonadState.get >>= g) :=
  fun c c' hc => h c c' hc c c' hc

theorem currentKind {f : TokenKind → Parse γ} {g : TokenKind → Parse δ}
    (h : ∀ kind, Alike tokens tokens' S (f kind) (g kind)) :
    Alike tokens tokens' S (Parse.currentKind >>= f) (Parse.currentKind >>= g) :=
  get fun c _ hc => hc.current.kind_eq ▸ h c.current.kind

theorem peekKind {n : Nat} {f : TokenKind → Parse γ} {g : TokenKind → Parse δ}
    (h : ∀ kind, Alike tokens tokens' S (f kind) (g kind)) :
    Alike tokens tokens' S (Parse.peekKind n >>= f) (Parse.peekKind n >>= g) :=
  get fun c _ hc => (hc.peek n).kind_eq ▸ h (c.peek n).kind

theorem spanFrom {span span' : Span} {f : Span → Parse γ} {g : Span → Parse δ}
    (h : ∀ s s', Alike tokens tokens' S (f s) (g s')) :
    Alike tokens tokens' S (Parse.spanFrom span >>= f) (Parse.spanFrom span' >>= g) :=
  get fun c c' _ => h (span.join c.previousSpan) (span'.join c'.previousSpan)

/-- Passing whatever tokens stand here. -/
theorem pass : Alike tokens tokens' (Token.Twin tokens tokens') Parse.next Parse.next :=
  fun _ _ hc => .ok hc.current hc.advance

theorem next {f : Token → Parse γ} {g : Token → Parse δ}
    (h : ∀ t t', t.Twin tokens tokens' t' → Alike tokens tokens' S (f t) (g t')) :
    Alike tokens tokens' S (Parse.next >>= f) (Parse.next >>= g) :=
  pass.bind h

theorem expect {kind : TokenKind} {f : Token → Parse γ} {g : Token → Parse δ}
    (h : ∀ t t', t.Twin tokens tokens' t' → Alike tokens tokens' S (f t) (g t')) :
    Alike tokens tokens' S (Parse.expect kind >>= f) (Parse.expect kind >>= g) := by
  refine bind (get fun c c' hc => ?_) h
  rw [← hc.current.kind_eq]
  split
  · exact pass
  · exact raise (hc.current.error (by rw [hc.current.description_eq]) rfl rfl)

theorem expectFor {kind : TokenKind} {message : String} {f : Token → Parse γ}
    {g : Token → Parse δ}
    (h : ∀ t t', t.Twin tokens tokens' t' → Alike tokens tokens' S (f t) (g t')) :
    Alike tokens tokens' S (Parse.expectFor kind message >>= f)
      (Parse.expectFor kind message >>= g) := by
  refine bind (get fun c c' hc => ?_) h
  rw [← hc.current.kind_eq]
  split
  · exact pass
  · exact raise (hc.current.error (by rw [hc.current.description_eq]) rfl rfl)

theorem skip {kind : TokenKind} {f : Bool → Parse γ} {g : Bool → Parse δ}
    (h : ∀ found, Alike tokens tokens' S (f found) (g found)) :
    Alike tokens tokens' S (Parse.skip kind >>= f) (Parse.skip kind >>= g) := by
  refine bind (R := Eq) (currentKind fun current => ?_) fun found _ hfound => hfound ▸ h found
  split
  · exact next fun _ _ _ => pure rfl
  · exact pure rfl

/-- Items with commas between them. -/
theorem commaSeparated {item : Parse α} {item' : Parse β} (h : Alike tokens tokens' R item item')
    (fuel : Nat) : Alike tokens tokens' (List.Forall₂ R) (Parse.commaSeparated item fuel)
      (Parse.commaSeparated item' fuel) := by
  induction fuel with
  | zero => exact exhausted
  | succ fuel ih =>
    rw [Parse.commaSeparated, Parse.commaSeparated]
    refine h.bind fun a b hab => currentKind fun kind => ?_
    split
    · exact next fun _ _ _ => ih.bind fun as bs hrest => pure (.cons hab hrest)
    · exact pure (.cons hab .nil)

theorem untilParen {item : Parse α} {item' : Parse β} (h : Alike tokens tokens' R item item')
    (fuel : Nat) : Alike tokens tokens' (List.Forall₂ R) (Parse.untilParen item fuel)
      (Parse.untilParen item' fuel) := by
  refine currentKind fun kind => ?_
  split
  · exact pure .nil
  · exact commaSeparated h fuel

end

end Alike

namespace Parse

variable {tokens tokens' : List Token}

/-! ## Expressions -/

/-- Expressions that differ in places only. -/
def SameExpr (e e' : Expr) : Prop := e.erase = e'.erase

/-- Lists of expressions that differ in places only. -/
theorem eraseAll_of_forall₂ {es es' : List Expr} (h : List.Forall₂ SameExpr es es') :
    Expr.eraseAll es = Expr.eraseAll es' := by
  induction h with
  | nil => rfl
  | cons hfirst _ ih => rw [Expr.eraseAll, Expr.eraseAll, hfirst, ih]

theorem number_alike {c c' : Cursor} (hc : c.Twin tokens tokens' c')
    (hkind : c.current.kind = .number) :
    AlikeEnd tokens tokens' SameExpr (number c) (number c') := by
  have hwhole := hc.current
  have hfraction := hc.advance.peek 1
  -- both sides take the same branch, since the same digits are followed by a tight point
  change AlikeEnd tokens tokens' SameExpr
    ((if formsDecimal c.current c.advance.current (c.advance.peek 1) then _ else _ : Parse Expr)
      c.advance)
    ((if formsDecimal c'.current c'.advance.current (c'.advance.peek 1) then _ else _ : Parse Expr)
      c'.advance)
  rw [hc.formsDecimal_eq hkind]
  split
  · refine Alike.next (fun _ _ _ => .next fun _ _ _ => ?_) c.advance c'.advance hc.advance
    rw [hwhole.value_eq, hfraction.value_eq]
    dsimp only
    cases readFloat32? (c'.current.value ++ "." ++ (c'.advance.peek 1).value).toList with
    | some value => exact .pure rfl
    | none => exact .raise (hwhole.error rfl rfl rfl)
  · rw [hwhole.value_eq]
    cases readInt32? c'.current.value.toList with
    | some value => exact .ok rfl hc.advance
    | none => exact .fault (hwhole.error rfl rfl rfl)

theorem primary_alike : Alike tokens tokens' SameExpr primary primary := by
  intro c c' hc
  rw [primary_apply, primary_apply, ← hc.current.kind_eq]
  split
  · next hkind => exact number_alike hc hkind
  · refine .ok ?_ hc.advance
    rw [SameExpr, Expr.erase, Expr.erase, hc.current.value_eq]
  · refine .ok ?_ hc.advance
    rw [SameExpr, Expr.erase, Expr.erase, hc.current.value_eq]
  · exact .ok rfl hc.advance
  · exact .ok rfl hc.advance
  · exact .fault (hc.current.error (by rw [hc.current.description_eq]) rfl rfl)

theorem atLeastMagnitude_eq {c c' : Cursor} (hc : c.Twin tokens tokens' c') :
    atLeastMagnitude c' = atLeastMagnitude c := by
  unfold atLeastMagnitude
  rw [hc.current.kind_eq, hc.current.value_eq, (hc.peek 1).kind_eq]

mutual

theorem expr_alike (g : Grammar) : ∀ (fuel : Nat) (above : Precedence),
    Alike tokens tokens' SameExpr (expr g fuel above) (expr g fuel above)
  | 0, _ => by simpa only [expr] using .exhausted
  | fuel + 1, above => by
    simp only [expr]
    refine .currentKind fun kind => ?_
    cases g.start kind with
    | none => exact .fail _
    | some rule =>
      exact (startExpr_alike g fuel rule).bind fun left left' hleft =>
        extendExpr_alike g fuel above hleft

theorem startExpr_alike (g : Grammar) : ∀ (fuel : Nat) (rule : StartRule),
    Alike tokens tokens' SameExpr (startExpr g fuel rule) (startExpr g fuel rule)
  | 0, _ => by simpa only [startExpr] using .exhausted
  | fuel + 1, .primary => by simpa only [startExpr] using primary_alike
  | fuel + 1, .operator => by simpa only [startExpr] using unaryExpr_alike g fuel
  | fuel + 1, .group => by simpa only [startExpr] using groupExpr_alike g fuel

theorem extendExpr_alike (g : Grammar) : ∀ (fuel : Nat) (above : Precedence) {left left' : Expr},
    SameExpr left left' → Alike tokens tokens' SameExpr (extendExpr g fuel above left)
      (extendExpr g fuel above left')
  | 0, _, _, _, _ => by simpa only [extendExpr] using .exhausted
  | fuel + 1, above, left, left', hleft => by
    simp only [extendExpr]
    refine .currentKind fun kind => ?_
    cases g.follow kind with
    | none => exact .pure hleft
    | some follow =>
      obtain ⟨precedence, rule⟩ := follow
      dsimp only
      split
      · exact (followExpr_alike g fuel precedence rule hleft).bind fun longer longer' hlonger =>
          extendExpr_alike g fuel above hlonger
      · exact .pure hleft

theorem followExpr_alike (g : Grammar) : ∀ (fuel : Nat) (precedence : Precedence)
    (rule : FollowRule) {left left' : Expr}, SameExpr left left' →
    Alike tokens tokens' SameExpr (followExpr g fuel precedence rule left)
      (followExpr g fuel precedence rule left')
  | 0, _, _, _, _, _ => by simpa only [followExpr] using .exhausted
  | fuel + 1, precedence, .operator, left, left', hleft => by
    simpa only [followExpr] using binaryExpr_alike g fuel precedence hleft
  | fuel + 1, _, .call, left, left', hleft => by
    simpa only [followExpr] using callExpr_alike g fuel hleft

theorem unaryExpr_alike (g : Grammar) : ∀ fuel : Nat,
    Alike tokens tokens' SameExpr (unaryExpr g fuel) (unaryExpr g fuel)
  | 0 => by simpa only [unaryExpr] using .exhausted
  | fuel + 1 => by
    simp only [unaryExpr]
    refine .next fun operator operator' hoperator => .get fun c c' hc => ?_
    rw [hoperator.kind_eq, atLeastMagnitude_eq hc]
    split
    · refine .next fun magnitude magnitude' hmagnitude => .pure ?_
      rw [SameExpr, Expr.erase, Expr.erase, hmagnitude.value_eq]
    · refine (expr_alike g fuel .unary).bind fun operand operand' hoperand => .pure ?_
      rw [SameExpr, Expr.erase, Expr.erase, hoperand]

theorem groupExpr_alike (g : Grammar) : ∀ fuel : Nat,
    Alike tokens tokens' SameExpr (groupExpr g fuel) (groupExpr g fuel)
  | 0 => by simpa only [groupExpr] using .exhausted
  | fuel + 1 => by
    simp only [groupExpr]
    refine .next fun _ _ _ => (expr_alike g fuel .lowest).bind fun inner inner' hinner => ?_
    exact .expectFor fun _ _ _ => .pure hinner

theorem binaryExpr_alike (g : Grammar) : ∀ (fuel : Nat) (precedence : Precedence)
    {left left' : Expr}, SameExpr left left' →
    Alike tokens tokens' SameExpr (binaryExpr g fuel precedence left)
      (binaryExpr g fuel precedence left')
  | 0, _, _, _, _ => by simpa only [binaryExpr] using .exhausted
  | fuel + 1, precedence, left, left', hleft => by
    simp only [binaryExpr]
    refine .next fun operator operator' hoperator => ?_
    rw [hoperator.kind_eq]
    cases BinaryOp.ofKind? operator'.kind with
    | none => exact .raise (hoperator.error (by rw [hoperator.value_eq]) rfl rfl)
    | some op =>
      refine (expr_alike g fuel precedence).bind fun right right' hright => .pure ?_
      rw [SameExpr, Expr.erase, Expr.erase, hleft, hright]

theorem callExpr_alike (g : Grammar) : ∀ (fuel : Nat) {callee callee' : Expr},
    SameExpr callee callee' →
    Alike tokens tokens' SameExpr (callExpr g fuel callee) (callExpr g fuel callee')
  | 0, _, _, _ => by simpa only [callExpr] using .exhausted
  | fuel + 1, callee, callee', hcallee => by
    simp only [callExpr]
    refine .next fun _ _ _ => ?_
    refine (Alike.untilParen (expr_alike g fuel .lowest) fuel).bind fun as as' harguments => ?_
    refine .expectFor fun _ _ _ => .pure ?_
    rw [SameExpr, Expr.erase, Expr.erase, hcallee, eraseAll_of_forall₂ harguments]

end

/-! ## Types and variables -/

mutual

theorem type_alike (g : Grammar) : ∀ fuel : Nat,
    Alike tokens tokens' Eq (type g fuel) (type g fuel)
  | 0 => by simpa only [type] using .exhausted
  | fuel + 1 => by
    simp only [type]
    refine .currentKind fun kind => ?_
    cases g.type kind with
    | none => exact .fail _
    | some rule =>
      cases rule with
      | name => exact .expect fun t t' ht => .pure (by rw [ht.value_eq])
      | pointer => exact pointerType_alike g fuel
      | deduced => exact .expect fun _ _ _ => .pure rfl

theorem pointerType_alike (g : Grammar) : ∀ fuel : Nat,
    Alike tokens tokens' Eq (pointerType g fuel) (pointerType g fuel)
  | 0 => by simpa only [pointerType] using .exhausted
  | fuel + 1 => by
    simp only [pointerType]
    exact .expect fun _ _ _ => (type_alike g fuel).bind fun _ _ htarget => .pure (by rw [htarget])

end

theorem explicitType_alike (g : Grammar) (fuel : Nat) (message : String) :
    Alike tokens tokens' Eq (explicitType g fuel message) (explicitType g fuel message) := by
  refine .currentKind fun kind => ?_
  split
  · exact .fail _
  · refine (type_alike g fuel).bind fun t t' ht => ?_
    subst ht
    split
    · exact .fail _
    · exact .pure rfl

/-- Values that are both absent or differ in places only. -/
def SameValue (value value' : Option Expr) : Prop :=
  value.map Expr.erase = value'.map Expr.erase

theorem typeAndValue_alike (g : Grammar) (fuel : Nat) :
    Alike tokens tokens' (fun b b' => b.1 = b'.1 ∧ SameValue b.2 b'.2) (typeAndValue g fuel)
      (typeAndValue g fuel) := by
  unfold typeAndValue bindingType valueAfter
  refine .skip fun found => ?_
  split
  · exact (expr_alike g fuel .lowest).bind fun e e' he => .pure ⟨rfl, congrArg some he⟩
  · refine .expect fun _ _ _ => .bind (R := Eq) ?_ fun type type' htype => ?_
    · exact .skip fun _ => (type_alike g fuel).bind fun _ _ ht => .pure (by rw [ht])
    · refine .bind (R := SameValue) (.skip fun found => ?_) fun value value' hvalue =>
        .pure ⟨htype, hvalue⟩
      split
      · exact (expr_alike g fuel .lowest).bind fun e e' he => .pure (congrArg some he)
      · exact .pure rfl

theorem varDecl_alike (g : Grammar) (fuel : Nat) :
    Alike tokens tokens' (fun decl decl' => decl.erase = decl'.erase) (varDecl g fuel)
      (varDecl g fuel) := by
  refine .expect fun name name' hname => ?_
  refine (typeAndValue_alike g fuel).bind fun ⟨type, value⟩ ⟨type', value'⟩ ⟨htype, hvalue⟩ => ?_
  refine .expect fun _ _ _ => .spanFrom fun span span' => .pure ?_
  obtain rfl : type = type' := htype
  have hvalue : value.map Expr.erase = value'.map Expr.erase := hvalue
  simp only [VarDecl.erase, hname.value_eq, hvalue]

/-! ## Statements -/

/-- Statements that differ in places only. -/
def SameStmt (s s' : Stmt) : Prop := s.erase = s'.erase

/-- Blocks that differ in places only. -/
def SameBlock (b b' : Block Stmt) : Prop := b.erase = b'.erase

theorem eraseBody_of_forall₂ {ss ss' : List Stmt} (h : List.Forall₂ SameStmt ss ss') :
    eraseBody ss = eraseBody ss' := by
  induction h with
  | nil => rfl
  | cons hfirst _ ih => rw [eraseBody, eraseBody, hfirst, ih]

theorem sameBlock_unresolved {ss ss' : List Stmt} (h : List.Forall₂ SameStmt ss ss')
    (span span' : Span) : SameBlock (.unresolved ss span) (.unresolved ss' span') := by
  rw [SameBlock, Block.unresolved, Block.unresolved, Block.erase, Block.erase,
    eraseBody_of_forall₂ h]

theorem assignment_alike (g : Grammar) (fuel : Nat) :
    Alike tokens tokens' SameStmt (assignment g fuel) (assignment g fuel) := by
  refine .expect fun name name' hname => .expect fun _ _ _ => ?_
  refine (expr_alike g fuel .lowest).bind fun value value' hvalue => ?_
  refine .expect fun _ _ _ => .spanFrom fun span span' => .pure ?_
  rw [SameStmt, Stmt.erase, Stmt.erase, hname.value_eq, hvalue]

/-- What is not a call is no statement, and stays so at other places. -/
theorem callStmt_alike (g : Grammar) (fuel : Nat) :
    Alike tokens tokens' SameStmt (callStmt g fuel) (callStmt g fuel) := by
  refine .get fun c c' _ => (expr_alike g fuel .lowest).bind fun e e' he => ?_
  cases e with
  | call callee arguments span =>
    obtain ⟨callee', arguments', span', rfl, hcallee, harguments⟩ := exists_call_of_erase he.symm
    refine .expect fun _ _ _ => .spanFrom fun _ _ => .pure ?_
    rw [SameStmt, Stmt.erase, Stmt.erase, hcallee, harguments]
  | _ =>
    cases e' with
    | call callee' arguments' span' =>
      obtain ⟨_, _, _, hcall, -⟩ := exists_call_of_erase he
      cases hcall
    | _ => exact .fail _

theorem identifierStmt_alike (g : Grammar) (fuel : Nat) :
    Alike tokens tokens' SameStmt (identifierStmt g fuel) (identifierStmt g fuel) := by
  have hdefine : Alike tokens tokens' SameStmt (varDecl g fuel >>= fun decl => return .define decl)
      (varDecl g fuel >>= fun decl => return .define decl) := by
    refine (varDecl_alike g fuel).bind fun decl decl' hdecl => .pure ?_
    rw [SameStmt, Stmt.erase, Stmt.erase, hdecl]
  refine .peekKind fun first => .peekKind fun second => ?_
  split
  · exact .next fun _ _ _ => .next fun _ _ _ => .fail _
  · exact hdefine
  · exact hdefine
  · exact assignment_alike g fuel
  · exact callStmt_alike g fuel

theorem returnStmt_alike (g : Grammar) (fuel : Nat) :
    Alike tokens tokens' SameStmt (returnStmt g fuel) (returnStmt g fuel) := by
  unfold returnStmt optionalValue
  refine .next fun word word' _ => .bind (R := SameValue) (.currentKind fun kind => ?_)
    fun value value' hvalue => ?_
  · split
    · exact .pure rfl
    · exact (expr_alike g fuel .lowest).bind fun e e' he => .pure (congrArg some he)
  · refine .expect fun _ _ _ => .spanFrom fun span span' => .pure ?_
    have hvalue : value.map Expr.erase = value'.map Expr.erase := hvalue
    rw [SameStmt, Stmt.erase, Stmt.erase, hvalue]

theorem untilClose_alike {item : Parse Stmt} (h : Alike tokens tokens' SameStmt item item)
    (fuel : Nat) :
    Alike tokens tokens' (List.Forall₂ SameStmt) (untilClose item fuel)
      (untilClose item fuel) := by
  induction fuel with
  | zero => exact .exhausted
  | succ fuel ih =>
    rw [untilClose]
    refine .currentKind fun kind => ?_
    split
    · exact .pure .nil
    · exact .fail _
    · exact h.bind fun first first' hfirst => ih.bind fun rest rest' hrest =>
        .pure (.cons hfirst hrest)

mutual

theorem stmt_alike (g : Grammar) : ∀ fuel : Nat,
    Alike tokens tokens' SameStmt (stmt g fuel) (stmt g fuel)
  | 0 => by simpa only [stmt] using .exhausted
  | fuel + 1 => by
    simp only [stmt]
    refine .currentKind fun kind => ?_
    cases g.stmt kind with
    | none => exact .fail _
    | some rule =>
      cases rule with
      | identifier => exact identifierStmt_alike g fuel
      | ifThenElse => exact ifStmt_alike g fuel
      | whileDo => exact whileStmt_alike g fuel
      | ret => exact returnStmt_alike g fuel

theorem block_alike (g : Grammar) : ∀ fuel : Nat,
    Alike tokens tokens' SameBlock (block g fuel) (block g fuel)
  | 0 => by simpa only [block] using .exhausted
  | fuel + 1 => by
    simp only [block]
    refine .expectFor fun _ _ _ => ?_
    refine (untilClose_alike (stmt_alike g fuel) fuel).bind fun body body' hbody => ?_
    exact .expect fun _ _ _ => .spanFrom fun _ _ => .pure (sameBlock_unresolved hbody _ _)

theorem ifStmt_alike (g : Grammar) : ∀ fuel : Nat,
    Alike tokens tokens' SameStmt (ifStmt g fuel) (ifStmt g fuel)
  | 0 => by simpa only [ifStmt] using .exhausted
  | fuel + 1 => by
    simp only [ifStmt]
    refine .next fun _ _ _ => ?_
    refine (expr_alike g fuel .lowest).bind fun condition condition' hcondition => ?_
    refine (block_alike g fuel).bind fun thenBlock thenBlock' hthen => ?_
    refine (elseBlock_alike g fuel).bind fun elseBlock elseBlock' helse => ?_
    refine .spanFrom fun _ _ => .pure ?_
    rw [SameStmt, Stmt.erase, Stmt.erase, hcondition, hthen, helse]

theorem elseBlock_alike (g : Grammar) : ∀ fuel : Nat,
    Alike tokens tokens' SameBlock (elseBlock g fuel) (elseBlock g fuel)
  | 0 => by simpa only [elseBlock] using .exhausted
  | fuel + 1 => by
    simp only [elseBlock]
    refine .skip fun found => ?_
    split
    · refine .currentKind fun kind => ?_
      split
      · exact (ifStmt_alike g fuel).bind fun nested nested' hnested =>
          .pure (sameBlock_unresolved (.cons hnested .nil) _ _)
      · exact block_alike g fuel
    · exact .get fun _ _ _ => .pure (sameBlock_unresolved .nil _ _)

theorem whileStmt_alike (g : Grammar) : ∀ fuel : Nat,
    Alike tokens tokens' SameStmt (whileStmt g fuel) (whileStmt g fuel)
  | 0 => by simpa only [whileStmt] using .exhausted
  | fuel + 1 => by
    simp only [whileStmt]
    refine .next fun _ _ _ => ?_
    refine (expr_alike g fuel .lowest).bind fun condition condition' hcondition => ?_
    refine (block_alike g fuel).bind fun body body' hbody => .spanFrom fun _ _ => .pure ?_
    rw [SameStmt, Stmt.erase, Stmt.erase, hcondition, hbody]

end

/-! ## Programs -/

theorem parameter_alike (g : Grammar) (fuel : Nat) :
    Alike tokens tokens' (fun p p' => p.erase = p'.erase) (parameter g fuel)
      (parameter g fuel) := by
  refine .expectFor fun name name' hname => .expect fun _ _ _ => .skip fun isMutable => ?_
  refine (explicitType_alike g fuel _).bind fun ty ty' hty => .spanFrom fun _ _ => .pure ?_
  rw [Parameter.erase, Parameter.erase, hname.value_eq, hty]

theorem function_alike (g : Grammar) (fuel : Nat) :
    Alike tokens tokens' (fun f f' => f.erase = f'.erase) (function g fuel) (function g fuel) := by
  refine .expect fun name name' hname => .expect fun _ _ _ => .expect fun _ _ _ => ?_
  refine (Alike.untilParen (parameter_alike g fuel) fuel).bind fun ps ps' hps => ?_
  refine .expectFor fun _ _ _ => .expectFor fun _ _ _ => ?_
  refine (explicitType_alike g fuel _).bind fun result result' hresult => ?_
  refine .expectFor fun _ _ _ => (block_alike g fuel).bind fun body body' hbody => ?_
  refine .skip fun _ => .spanFrom fun _ _ => .pure ?_
  have hparameters : ps.map Parameter.erase = ps'.map Parameter.erase := by
    induction hps with
    | nil => rfl
    | cons hfirst _ ih => rw [List.map_cons, List.map_cons, hfirst, ih]
  have hbody : body.erase = body'.erase := hbody
  simp only [FunDecl.erase, hname.value_eq, hparameters, hresult, hbody]

/-- Programs that differ in places only. -/
def SameProgram (p p' : Program) : Prop := p.erase = p'.erase

theorem definition_alike (g : Grammar) (fuel : Nat) {p p' : Program} (hp : SameProgram p p') :
    Alike tokens tokens' SameProgram (definition g fuel p) (definition g fuel p') := by
  rw [SameProgram, Program.erase, Program.erase, Program.mk.injEq] at hp
  obtain ⟨hglobals, hfunctions⟩ := hp
  have hvariable : Alike tokens tokens' SameProgram
      (varDecl g fuel >>= fun decl => return { p with globals := p.globals ++ [decl] })
      (varDecl g fuel >>= fun decl => return { p' with globals := p'.globals ++ [decl] }) := by
    refine (varDecl_alike g fuel).bind fun decl decl' hdecl => .pure ?_
    simp only [SameProgram, Program.erase, List.map_append, List.map_cons, List.map_nil, hglobals,
      hfunctions, hdecl]
  refine .currentKind fun kind => ?_
  split
  · refine .peekKind fun first => .peekKind fun second => ?_
    split
    · refine (function_alike g fuel).bind fun f f' hf => .pure ?_
      simp only [SameProgram, Program.erase, List.map_append, List.map_cons, List.map_nil, hglobals,
        hfunctions, hf]
    · exact hvariable
    · exact hvariable
    · exact .next fun _ _ _ => .fail _
  · exact .fail _

theorem definitions_alike (g : Grammar) (fuel : Nat) {p p' : Program} (hp : SameProgram p p') :
    Alike tokens tokens' SameProgram (definitions g fuel p) (definitions g fuel p') := by
  induction fuel generalizing p p' with
  | zero => exact .exhausted
  | succ fuel ih =>
    rw [definitions, definitions]
    refine .get fun c c' hc => ?_
    have htokens : c'.hasTokens = c.hasTokens := by
      rw [Cursor.hasTokens, Cursor.hasTokens, hc.current.kind_eq]
    rw [htokens]
    split
    · exact (definition_alike g fuel hp).bind fun _ _ hlonger => ih hlonger
    · exact .pure hp

end Parse

/-! ## Whole lists of tokens -/

theorem Cursor.over_ofTokens {tokens : List Token} {p : Position} :
    (ofTokens (tokens ++ [.endAt p])).Over (tokens ++ [.endAt p]) ∧
      (ofTokens (tokens ++ [.endAt p])).position = 0 := by
  constructor
  · rw [Over, before_ofTokens, List.reverse_nil, List.nil_append]
    exact ofTokens_append_end.2
  · rw [position, before_ofTokens, List.length_nil]

theorem over_of_tokenize {source : String} {tokens : List Token}
    (h : tokenize source = .ok tokens) :
    (Cursor.ofTokens tokens).Over tokens ∧ (Cursor.ofTokens tokens).position = 0 := by
  obtain ⟨-, rfl⟩ := tokenize_eq_ok_iff.mp h
  exact Cursor.over_ofTokens

/-- Two outcomes of parsing: programs that differ in places only, or one error at corresponding
tokens. -/
inductive ParsedAlike (tokens tokens' : List Token) :
    Except Stop Program → Except Stop Program → Prop
  | ok {p p' : Program} (same : p.erase = p'.erase) : ParsedAlike tokens tokens' (.ok p) (.ok p')
  | fault {e e' : Error} (twin : e.Twin tokens tokens' e') :
    ParsedAlike tokens tokens' (.error (.fault e)) (.error (.fault e'))

/-- Tokens that say the same are parsed alike. -/
theorem parsedAlike_of_sameWords {ts ts' : List Token} {p p' : Position}
    (hsame : SameWords (ts ++ [.endAt p]) (ts' ++ [.endAt p'])) :
    ParsedAlike (ts ++ [.endAt p]) (ts' ++ [.endAt p']) (parse (ts ++ [.endAt p]))
      (parse (ts' ++ [.endAt p'])) := by
  obtain ⟨hover, hposition⟩ := @Cursor.over_ofTokens ts p
  obtain ⟨hover', hposition'⟩ := @Cursor.over_ofTokens ts' p'
  have hnever := parse_ne_exhausted (ts ++ [.endAt p])
  generalize ts ++ [.endAt p] = tokens at *
  generalize ts' ++ [.endAt p'] = tokens' at *
  have htwin : (Cursor.ofTokens tokens).Twin tokens tokens' (Cursor.ofTokens tokens') :=
    ⟨hsame, hover, hover', hposition.trans hposition'.symm⟩
  have hfuel : (Cursor.ofTokens tokens').fuel = (Cursor.ofTokens tokens).fuel := by
    rw [Cursor.fuel, Cursor.fuel, htwin.ahead_length]
  have hends := Parse.definitions_alike .standard (Cursor.ofTokens tokens).fuel
    (rfl : Parse.SameProgram .empty .empty) _ _ htwin
  unfold parse at hnever ⊢
  dsimp only at hnever ⊢
  rw [hfuel]
  generalize Parse.definitions .standard (Cursor.ofTokens tokens).fuel .empty
    (Cursor.ofTokens tokens) = end₁ at hends hnever ⊢
  generalize Parse.definitions .standard (Cursor.ofTokens tokens).fuel .empty
    (Cursor.ofTokens tokens') = end₂ at hends ⊢
  cases hends with
  | ok related twin => exact .ok related
  | fault twin => exact .fault twin
  | exhausted => exact absurd rfl hnever

/-- **Texts that read the same are parsed alike.** -/
theorem parse_alike {source source' : String} {tokens tokens' : List Token}
    (h : tokenize source = .ok tokens) (h' : tokenize source' = .ok tokens')
    (hsame : SameWords tokens tokens') :
    ParsedAlike tokens tokens' (parse tokens) (parse tokens') := by
  obtain ⟨-, rfl⟩ := tokenize_eq_ok_iff.mp h
  obtain ⟨-, rfl⟩ := tokenize_eq_ok_iff.mp h'
  exact parsedAlike_of_sameWords hsame

end TypedImp
