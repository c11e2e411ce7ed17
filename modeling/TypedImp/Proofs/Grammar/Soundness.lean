import TypedImp.Proofs.Grammar.Derivations
import TypedImp.Proofs.Grammar.ProgramFuel
import TypedImp.Proofs.Printing.Expressions

/-!
# What is parsed has a derivation

Every function of the grammar that comes to a tree has passed the tokens of a derivation of that
tree, and every error stands at a token where parsing has got to.  This is shown here once, function
by function.  Whatever is to be known of parsed trees is then an induction on derivations, in which
there is no fuel, no error and no looking ahead.

## Statements that are calls

A statement that begins with a name may be parsed as an expression, and such an expression may go on
in any way.  But once an operator has been passed no call follows at the same level, so a call comes
out only if the name itself was called (`headed_of_expr`).  This rests on how tightly operators
bind, which derivations do not show, so it is put on record where the statement is derived.

* `Cursor.StopsWith`: the errors of parsing.
* `Derives`: a computation that comes to a derived result or stops with such an error, with a law
  for each way in which computations are put together.
* `expr_derives`, `type_derives`, `stmt_derives`, `function_derives`, `definitions_derives`: all
  functions of the grammar.
* `grows_of_parse`: **programs grow from derived definitions, and errors stand at tokens**.
-/

namespace TypedImp

/-! ## Errors -/

/-- The errors of parsing from a cursor on.  They stand at a token that is reached, or at the number
whose text has no value. -/
inductive Cursor.StopsWith (c : Cursor) : Error → Prop
  | unexpected {d : Cursor} (reached : c.Moves d) : StopsWith c d.unexpected
  | unexpectedFor {d : Cursor} (reached : c.Moves d) (message : String) :
    StopsWith c (d.unexpectedFor message)
  | integer {d d' : Cursor} {t : Token} (reached : c.Moves d) (digits : d.Passes .number t d')
    (unread : readInt32? t.value.toList = none) : StopsWith c ⟨.unreadableNumber t.value, t.span⟩
  | decimal {d d₁ d₂ d' : Cursor} {t point u : Token} (reached : c.Moves d)
    (whole : d.Passes .number t d₁) (dot : d₁.Passes .dot point d₂)
    (fraction : d₂.Passes .number u d')
    (unread : readFloat32? (t.value ++ "." ++ u.value).toList = none) :
    StopsWith c ⟨.unreadableNumber (t.value ++ "." ++ u.value), t.span.join u.span⟩

/-- An error from further on is one from here. -/
theorem Cursor.StopsWith.of_moves {c c' : Cursor} {e : Error} (h : c'.StopsWith e)
    (hmoves : c.Moves c') : c.StopsWith e := by
  cases h with
  | unexpected reached => exact .unexpected (hmoves.trans reached)
  | unexpectedFor reached message => exact .unexpectedFor (hmoves.trans reached) message
  | integer reached digits unread => exact .integer (hmoves.trans reached) digits unread
  | decimal reached whole dot fraction unread =>
    exact .decimal (hmoves.trans reached) whole dot fraction unread

/-! ## Computations -/

section

variable {α β : Type} {Q : α → Cursor → Prop} {R : β → Cursor → Prop} {c : Cursor}

/-- A computation moves forward and comes to a result that is related to the cursor that is left, or
it stops with an error of parsing, or for want of fuel. -/
def Derives (Q : α → Cursor → Prop) (x : Parse α) (c : Cursor) : Prop :=
  c.Ends →
    match x c with
    | .ok a c' => c.Moves c' ∧ Q a c'
    | .error (.fault e) _ => c.StopsWith e
    | .error .exhausted _ => True

namespace Derives

theorem pure {a : α} (h : Q a c) : Derives Q (Pure.pure a) c := fun _ => ⟨.refl c, h⟩

theorem exhausted : Derives Q Parse.exhausted c := fun _ => trivial

theorem raise {error : Error} (h : c.StopsWith error) : Derives Q (Parse.raise error) c :=
  fun _ => h

theorem fail (message : String) : Derives Q (Parse.fail message) c :=
  fun _ => .unexpectedFor (.refl c) message

/-- One computation after the other. -/
theorem bind {x : Parse α} {f : α → Parse β} (hx : Derives Q x c)
    (hf : ∀ a c', Q a c' → Derives R (f a) c') : Derives R (x >>= f) c := by
  intro hc
  have hfirst := hx hc
  change match EStateM.bind x f c with
    | .ok a c' => _ | .error (.fault e) _ => _ | .error .exhausted _ => _
  unfold EStateM.bind
  cases hxc : x c with
  | error stop c' =>
    rw [hxc] at hfirst
    cases stop with
    | fault e => exact hfirst
    | exhausted => trivial
  | ok a c' =>
    rw [hxc] at hfirst
    obtain ⟨hmoves, ha⟩ := hfirst
    have hrest := hf a c' ha (hmoves.ends hc)
    dsimp only
    generalize f a c' = result at hrest ⊢
    match result with
    | .ok b c'' => exact ⟨hmoves.trans hrest.1, hrest.2⟩
    | .error (.fault e) _ => exact hrest.of_moves hmoves
    | .error .exhausted _ => trivial

/-- A result may be known better than by its derivation. -/
theorem and_of_ok {x : Parse α} {P : α → Prop} (hx : Derives Q x c)
    (h : ∀ a c', x c = .ok a c' → P a) : Derives (fun a c' => Q a c' ∧ P a) x c := by
  intro hc
  have hfirst := hx hc
  cases hxc : x c with
  | ok a c' =>
    rw [hxc] at hfirst
    exact ⟨hfirst.1, hfirst.2, h a c' hxc⟩
  | error stop c' =>
    rw [hxc] at hfirst
    cases stop with
    | fault e => exact hfirst
    | exhausted => trivial

theorem mono {x : Parse α} {Q' : α → Cursor → Prop} (hx : Derives Q x c)
    (h : ∀ a c', Q a c' → Q' a c') : Derives Q' x c := by
  intro hc
  have hfirst := hx hc
  generalize x c = result at hfirst ⊢
  match result with
  | .ok a c' => exact ⟨hfirst.1, h a c' hfirst.2⟩
  | .error (.fault e) _ => exact hfirst
  | .error .exhausted _ => trivial

theorem currentKind {f : TokenKind → Parse β} (h : Derives R (f c.current.kind) c) :
    Derives R (Parse.currentKind >>= f) c := h

theorem peekKind {n : Nat} {f : TokenKind → Parse β} (h : Derives R (f (c.peek n).kind) c) :
    Derives R (Parse.peekKind n >>= f) c := h

theorem get {f : Cursor → Parse β} (h : c.Ends → Derives R (f c) c) :
    Derives R (MonadState.get >>= f) c := fun hc => h hc hc

theorem spanFrom {span : Span} {f : Span → Parse β}
    (h : Derives R (f (span.join c.previousSpan)) c) :
    Derives R (Parse.spanFrom span >>= f) c := h

/-- Passing a token of a known kind. -/
theorem next {kind : TokenKind} {f : Token → Parse β} (hkind : c.current.kind = kind)
    (hvisible : kind ≠ .endOfInput)
    (h : ∀ c', c.Passes kind c.current c' → Derives R (f c.current) c') :
    Derives R (Parse.next >>= f) c := by
  intro hc
  have hpasses := Cursor.Passes.advance hc hkind hvisible
  have hnext : Derives (fun t c' => t = c.current ∧ c' = c.advance) Parse.next c :=
    fun _ => ⟨hpasses.moves, rfl, rfl⟩
  refine hnext.bind ?_ hc
  rintro _ _ ⟨rfl, rfl⟩
  exact h _ hpasses

/-- Passing a token of a kind, or stopping at the token that stands here. -/
theorem passOr {kind : TokenKind} {error : Error} {f : Token → Parse β}
    (hkind : kind ≠ .endOfInput) (herror : c.StopsWith error)
    (h : ∀ t c', c.Passes kind t c' → Derives R (f t) c') :
    Derives R ((if c.current.kind = kind then Parse.next else Parse.raise error) >>= f) c := by
  split
  · next hcurrent => exact next hcurrent hkind (h c.current)
  · exact fun _ => herror

theorem expect {kind : TokenKind} {f : Token → Parse β} (hkind : kind ≠ .endOfInput)
    (h : ∀ t c', c.Passes kind t c' → Derives R (f t) c') : Derives R (Parse.expect kind >>= f) c :=
  passOr hkind (.unexpected (.refl c)) h

theorem expectFor {kind : TokenKind} {message : String} {f : Token → Parse β}
    (hkind : kind ≠ .endOfInput) (h : ∀ t c', c.Passes kind t c' → Derives R (f t) c') :
    Derives R (Parse.expectFor kind message >>= f) c :=
  passOr hkind (.unexpectedFor (.refl c) message) h

theorem skip {kind : TokenKind} {f : Bool → Parse β} (hkind : kind ≠ .endOfInput)
    (h : ∀ found c', c.Skips kind found c' → Derives R (f found) c') :
    Derives R (Parse.skip kind >>= f) c := by
  refine bind (Q := c.Skips kind) ?_ h
  unfold Parse.skip
  refine currentKind ?_
  split
  · next hcurrent => exact next hcurrent hkind fun _ hpasses => pure (.present hpasses)
  · next hcurrent => exact pure (.absent hcurrent)

variable {item : Parse α} {I : Cursor → α → Cursor → Prop}

/-- Items with commas between them; there is at least one. -/
theorem commaSeparated (h : ∀ c, Derives (I c) item c) (fuel : Nat) :
    Derives (fun as c' => as ≠ [] ∧ CommaSeparated I c as c') (Parse.commaSeparated item fuel)
      c := by
  induction fuel generalizing c with
  | zero => exact exhausted
  | succ fuel ih =>
    rw [Parse.commaSeparated]
    refine (h c).bind fun first c' hfirst => currentKind ?_
    split
    · next hcomma =>
      refine next hcomma (by decide) fun c'' hpasses => ih.bind fun rest c''' hrest => pure ?_
      obtain ⟨hne, hrest⟩ := hrest
      obtain ⟨second, more, rfl⟩ := List.exists_cons_of_ne_nil hne
      exact ⟨List.cons_ne_nil _ _, .more hfirst hpasses hrest⟩
    · exact pure ⟨List.cons_ne_nil _ _, .one hfirst⟩

theorem untilParen (h : ∀ c, Derives (I c) item c) (fuel : Nat) :
    Derives (CommaSeparated I c) (Parse.untilParen item fuel) c := by
  unfold Parse.untilParen
  refine currentKind ?_
  split
  · exact pure .none
  · exact (commaSeparated h fuel).mono fun _ _ hitems => hitems.2

end Derives

end

open Parse

/-! ## Expressions -/

variable {c : Cursor}

theorem number_derives (hkind : c.current.kind = .number) :
    Derives (Expr.Derived c) number c := by
  intro hc
  have hwhole : c.Passes .number c.current c.advance := .advance hc hkind (by decide)
  cases hforms : formsDecimal c.current c.advance.current (c.advance.peek 1) with
  | true =>
    have hkinds := hforms
    simp only [formsDecimal, Bool.and_eq_true, decide_eq_true_eq] at hkinds
    obtain ⟨⟨⟨hdot, hnumber⟩, -⟩, -⟩ := hkinds
    have hpoint := Cursor.Passes.advance hc.advance hdot (by decide)
    rw [Cursor.peek_one hc.advance hpoint.kind_ne] at hforms hnumber
    have hdigits := Cursor.Passes.advance hc.advance.advance hnumber (by decide)
    rw [number_decimal hc hforms]
    cases hread :
      readFloat32? (c.current.value ++ "." ++ c.advance.advance.current.value).toList with
    | some value =>
      exact ⟨(hwhole.moves.trans hpoint.moves).trans hdigits.moves,
        .decimal hwhole hpoint hdigits hforms hread⟩
    | none => exact .decimal (.refl c) hwhole hpoint hdigits hread
  | false =>
    rw [number_integer hforms]
    cases hread : readInt32? c.current.value.toList with
    | some value => exact ⟨hwhole.moves, .integer hwhole hread⟩
    | none => exact .integer (.refl c) hwhole hread

theorem primary_derives : Derives (Expr.Derived c) primary c := by
  unfold primary
  refine .get fun _ => ?_
  split
  · next hkind => exact number_derives hkind
  · next hkind => exact .next hkind (by decide) fun _ hword => .pure (.name hword)
  · next hkind => exact .next hkind (by decide) fun _ hquoted => .pure (.string hquoted)
  · next hkind => exact .next hkind (by decide) fun _ hword => .pure (.isTrue hword)
  · next hkind => exact .next hkind (by decide) fun _ hword => .pure (.isFalse hword)
  · exact .raise (.unexpected (.refl c))

theorem exists_ofKind_of_follow {kind : TokenKind} {p : Precedence}
    (h : Grammar.standard.follow kind = some (p, .operator)) :
    ∃ op, BinaryOp.ofKind? kind = some op := by
  revert h
  cases kind <;> rintro ⟨⟩ <;> exact ⟨_, rfl⟩

theorem openParen_of_follow {kind : TokenKind} {p : Precedence}
    (h : Grammar.standard.follow kind = some (p, .call)) : kind = .openParen := by
  revert h
  cases kind <;> rintro ⟨⟩
  rfl

theorem openParen_of_start {kind : TokenKind} (h : Grammar.standard.start kind = some .group) :
    kind = .openParen := by
  revert h
  cases kind <;> rintro ⟨⟩
  rfl

theorem dash_of_start {kind : TokenKind} (h : Grammar.standard.start kind = some .operator)
    (hminus : UnaryOp.ofKind kind = .minus) : kind = .dash := by
  revert h
  cases kind <;> rintro ⟨⟩ <;> cases hminus
  rfl

mutual

theorem expr_derives : ∀ (fuel : Nat) (above : Precedence) (c : Cursor),
    Derives (Expr.Derived c) (expr .standard fuel above) c
  | 0, _, _ => .exhausted
  | fuel + 1, above, c => by
    simp only [expr]
    refine .currentKind ?_
    split
    · exact .fail _
    · next rule hrule =>
      exact (startExpr_derives fuel rule c hrule).bind fun left c' hleft =>
        extendExpr_derives fuel above left c' hleft

theorem startExpr_derives : ∀ (fuel : Nat) (rule : StartRule) (c : Cursor),
    Grammar.standard.start c.current.kind = some rule →
    Derives (Expr.Derived c) (startExpr .standard fuel rule) c
  | 0, _, _, _ => .exhausted
  | _ + 1, .primary, _, _ => primary_derives
  | fuel + 1, .operator, c, hrule => unaryExpr_derives fuel c hrule
  | fuel + 1, .group, c, hrule => groupExpr_derives fuel c (openParen_of_start hrule)

/-- What stands before an extension was derived from some cursor, and so is what comes of it. -/
theorem extendExpr_derives : ∀ (fuel : Nat) (above : Precedence) (left : Expr) (c : Cursor)
    {c₀ : Cursor}, Expr.Derived c₀ left c →
    Derives (Expr.Derived c₀) (extendExpr .standard fuel above left) c
  | 0, _, _, _, _, _ => .exhausted
  | fuel + 1, above, left, c, c₀, hleft => by
    simp only [extendExpr]
    refine .currentKind ?_
    split
    · exact .pure hleft
    · next precedence rule hrule =>
      split
      · exact (followExpr_derives fuel precedence rule left c hrule hleft).bind
          fun left c' hleft => extendExpr_derives fuel above left c' hleft
      · exact .pure hleft

theorem followExpr_derives : ∀ (fuel : Nat) (precedence : Precedence) (rule : FollowRule)
    (left : Expr) (c : Cursor) {c₀ : Cursor},
    Grammar.standard.follow c.current.kind = some (precedence, rule) → Expr.Derived c₀ left c →
    Derives (Expr.Derived c₀) (followExpr .standard fuel precedence rule left) c
  | 0, _, _, _, _, _, _, _ => .exhausted
  | fuel + 1, precedence, .operator, left, c, _, hrule, hleft =>
    binaryExpr_derives fuel precedence left c hrule hleft
  | fuel + 1, _, .call, left, c, _, hrule, hleft =>
    callExpr_derives fuel left c (openParen_of_follow hrule) hleft

theorem unaryExpr_derives : ∀ (fuel : Nat) (c : Cursor),
    Grammar.standard.start c.current.kind = some .operator →
    Derives (Expr.Derived c) (unaryExpr .standard fuel) c
  | 0, _, _ => .exhausted
  | fuel + 1, c, hrule => by
    simp only [unaryExpr]
    refine .next rfl (ne_end_of_start hrule) fun c' hoperator => .get fun _ => ?_
    split
    · next hleast =>
      simp only [atLeastMagnitude, Bool.and_eq_true, decide_eq_true_eq] at hleast
      obtain ⟨hminus, ⟨hnumber, -⟩, hread⟩ := hleast
      rw [dash_of_start hrule hminus] at hoperator
      exact .next hnumber (by decide) fun c'' hmagnitude =>
        .pure (.least hoperator hmagnitude hread)
    · exact (expr_derives fuel .unary c').bind fun operand c'' hoperand =>
        .pure (.unary hoperator hrule hoperand)

theorem groupExpr_derives : ∀ (fuel : Nat) (c : Cursor), c.current.kind = .openParen →
    Derives (Expr.Derived c) (groupExpr .standard fuel) c
  | 0, _, _ => .exhausted
  | fuel + 1, c, hkind => by
    simp only [groupExpr]
    refine .next hkind (by decide) fun c₁ hstart => ?_
    exact (expr_derives fuel .lowest c₁).bind fun inner c₂ hinner =>
      .expectFor (by decide) fun _ c₃ hclose => .pure (.group hstart hinner hclose)

theorem binaryExpr_derives : ∀ (fuel : Nat) (precedence : Precedence) (left : Expr) (c : Cursor)
    {c₀ : Cursor}, Grammar.standard.follow c.current.kind = some (precedence, .operator) →
    Expr.Derived c₀ left c →
    Derives (Expr.Derived c₀) (binaryExpr .standard fuel precedence left) c
  | 0, _, _, _, _, _, _ => .exhausted
  | fuel + 1, precedence, left, c, c₀, hrule, hleft => by
    obtain ⟨op, hop⟩ := exists_ofKind_of_follow hrule
    simp only [binaryExpr]
    refine .next rfl (ne_end_of_follow hrule) fun c₁ hoperator => ?_
    simp only [hop]
    exact (expr_derives fuel precedence c₁).bind fun right c₂ hright =>
      .pure (.binary hleft hoperator hop hright)

theorem callExpr_derives : ∀ (fuel : Nat) (callee : Expr) (c : Cursor) {c₀ : Cursor},
    c.current.kind = .openParen → Expr.Derived c₀ callee c →
    Derives (Expr.Derived c₀) (callExpr .standard fuel callee) c
  | 0, _, _, _, _, _ => .exhausted
  | fuel + 1, callee, c, c₀, hkind, hcallee => by
    simp only [callExpr]
    refine .next hkind (by decide) fun c₁ hstart => ?_
    refine (Derives.untilParen (expr_derives fuel .lowest) fuel).bind fun arguments c₂ hpassed => ?_
    exact .expectFor (by decide) fun _ c₃ hclose =>
      .pure (.call hcallee hstart hpassed hclose id)

end

/-! ## Calls that are statements -/

/-- What follows a name: either the name is called, any number of times, or it is an operand and
nothing of the kind can follow any more. -/
def CalledByName (e : Expr) (c : Cursor) : Prop :=
  e.isHeaded = true ∨ (∀ callee arguments span, e ≠ .call callee arguments span) ∧
    c.current.kind ≠ .openParen

theorem lt_call_of_follow {kind : TokenKind} {p : Precedence}
    (h : Grammar.standard.follow kind = some (p, .operator)) : p < .call := by
  revert h
  cases kind <;> rintro ⟨⟩ <;> decide

theorem calledByName_of_binaryExpr {fuel : Nat} {p : Precedence} {left e : Expr} {c c' : Cursor}
    (hp : p < .call) (h : binaryExpr .standard fuel p left c = .ok e c') : CalledByName e c' := by
  cases fuel with
  | zero => cases h
  | succ fuel =>
    simp only [binaryExpr] at h
    obtain ⟨operator, d, -, h⟩ := bind_eq_ok h
    cases hop : BinaryOp.ofKind? operator.kind with
    | none =>
      simp only [hop] at h
      cases h
    | some op =>
      simp only [hop] at h
      obtain ⟨right, d', hright, h⟩ := bind_eq_ok h
      cases h
      refine .inr ⟨nofun, fun hparen => stopped_of_expr hright .call .call ?_ hp⟩
      rw [hparen]
      rfl

theorem calledByName_of_callExpr {fuel : Nat} {callee e : Expr} {c c' : Cursor}
    (hcallee : callee.isHeaded = true) (h : callExpr .standard fuel callee c = .ok e c') :
    CalledByName e c' := by
  cases fuel with
  | zero => cases h
  | succ fuel =>
    simp only [callExpr] at h
    obtain ⟨_, _, -, h⟩ := bind_eq_ok h
    obtain ⟨_, _, -, h⟩ := bind_eq_ok h
    obtain ⟨_, _, -, h⟩ := bind_eq_ok h
    cases h
    exact .inl hcallee

theorem calledByName_of_followExpr {fuel : Nat} {p : Precedence} {rule : FollowRule}
    {left e : Expr} {c c' : Cursor} (hleft : CalledByName left c)
    (hfollow : Grammar.standard.follow c.current.kind = some (p, rule))
    (h : followExpr .standard fuel p rule left c = .ok e c') : CalledByName e c' := by
  cases fuel with
  | zero => cases h
  | succ fuel =>
    cases rule with
    | operator => exact calledByName_of_binaryExpr (lt_call_of_follow hfollow) h
    | call =>
      rcases hleft with hheaded | ⟨-, hother⟩
      · exact calledByName_of_callExpr hheaded h
      · exact absurd (openParen_of_follow hfollow) hother

theorem calledByName_of_extendExpr {fuel : Nat} {above : Precedence} {left e : Expr}
    {c c' : Cursor} (hleft : CalledByName left c)
    (h : extendExpr .standard fuel above left c = .ok e c') : CalledByName e c' := by
  induction fuel generalizing left c with
  | zero => cases h
  | succ fuel ih =>
    rcases stopped_or_follow above c with hstop | ⟨p, rule, hfollow, hlt⟩
    · rw [extendExpr_of_stopped hstop] at h
      cases h
      exact hleft
    · rw [extendExpr_of_follow hfollow hlt] at h
      obtain ⟨left', d, hone, h⟩ := bind_eq_ok h
      exact ih (calledByName_of_followExpr hleft hfollow hone) h

/-- An expression that begins with a name and turns out to be a call is a call of the name. -/
theorem headed_of_expr {fuel : Nat} {above : Precedence} {callee : Expr} {arguments : List Expr}
    {span : Span} {c c' : Cursor} (hkind : c.current.kind = .identifier)
    (h : expr .standard fuel above c = .ok (.call callee arguments span) c') :
    callee.isHeaded = true := by
  cases fuel with
  | zero => cases h
  | succ fuel =>
    have hstart : Grammar.standard.start c.current.kind = some .primary := by
      rw [hkind]
      rfl
    rw [expr_of_start hstart] at h
    obtain ⟨left, d, hleft, h⟩ := bind_eq_ok h
    have hheaded : left.isHeaded = true := by
      cases fuel with
      | zero => cases hleft
      | succ fuel =>
        have hname : primary c = .ok left d := hleft
        rw [primary_apply, hkind] at hname
        cases hname
        rfl
    rcases calledByName_of_extendExpr (.inl hheaded) h with hcall | ⟨hother, -⟩
    · exact hcall
    · exact absurd rfl (hother callee arguments span)

/-! ## Types and variables -/

mutual

theorem type_derives : ∀ (fuel : Nat) (c : Cursor), Derives (Ty.Derived c) (type .standard fuel) c
  | 0, _ => .exhausted
  | fuel + 1, c => by
    simp only [type]
    refine .currentKind ?_
    split
    · exact .expect (by decide) fun _ _ hword => .pure (.name hword)
    · exact pointerType_derives fuel c
    · exact .expect (by decide) fun _ _ hplaceholder => .pure (.deduced hplaceholder)
    · exact .fail _

theorem pointerType_derives : ∀ (fuel : Nat) (c : Cursor),
    Derives (Ty.Derived c) (pointerType .standard fuel) c
  | 0, _ => .exhausted
  | fuel + 1, c => by
    simp only [pointerType]
    exact .expect (by decide) fun _ c₁ hstar =>
      (type_derives fuel c₁).bind fun _ _ hinner => .pure (.pointer hstar hinner)

end

theorem explicitType_derives (fuel : Nat) (message : String) (c : Cursor) :
    Derives (fun t c' => Ty.Derived c t c' ∧ t.isPlaceholder = false)
      (explicitType .standard fuel message) c := by
  unfold explicitType
  refine .currentKind ?_
  split
  · exact .fail _
  · refine (type_derives fuel c).bind fun t _ ht => ?_
    split
    · exact .fail _
    · next hexplicit => exact .pure ⟨ht, Bool.eq_false_iff.mpr hexplicit⟩

theorem valueAfter_derives (fuel : Nat) {sign : TokenKind} (hsign : sign ≠ .endOfInput)
    (c : Cursor) :
    Derives (Optional (Expr.DerivedAfter sign) c) (valueAfter .standard fuel sign) c := by
  unfold valueAfter
  refine .skip hsign fun found c₁ hfound => ?_
  cases hfound with
  | present word =>
    exact (expr_derives fuel .lowest c₁).bind fun _ _ he => .pure (.present (.intro word he))
  | absent => exact .pure .absent

theorem bindingType_derives (fuel : Nat) (c : Cursor) :
    Derives (BindingTy.Derived c) (bindingType .standard fuel) c := by
  unfold bindingType
  exact .skip (by decide) fun _ c₁ hword =>
    (type_derives fuel c₁).bind fun _ _ htype => .pure (.intro hword htype)

theorem typeAndValue_derives (fuel : Nat) (c : Cursor) :
    Derives (BindingDerived c) (typeAndValue .standard fuel) c := by
  unfold typeAndValue
  refine .skip (by decide) fun found c₁ hfound => ?_
  cases hfound with
  | present word =>
    exact (expr_derives fuel .lowest c₁).bind fun _ _ he => .pure (.inferred (.intro word he))
  | absent =>
    refine .expect (by decide) fun _ c₁ hcolon => ?_
    refine (bindingType_derives fuel c₁).bind fun type c₂ htype => ?_
    exact (valueAfter_derives fuel (by decide) c₂).bind fun value c₃ hvalue =>
      .pure (.typed hcolon htype hvalue)

theorem varDecl_derives (fuel : Nat) (c : Cursor) :
    Derives (VarDecl.Derived c) (varDecl .standard fuel) c := by
  unfold varDecl
  refine .expect (by decide) fun name c₁ hname => ?_
  refine (typeAndValue_derives fuel c₁).bind fun b c₂ hbinding => ?_
  exact .expect (by decide) fun _ c₃ hclose => .spanFrom (.pure (.intro hname hbinding hclose))

/-! ## Statements -/

theorem assignment_derives (fuel : Nat) (c : Cursor) :
    Derives (Stmt.Derived c) (assignment .standard fuel) c := by
  unfold assignment
  refine .expect (by decide) fun name c₁ hname => .expect (by decide) fun _ c₂ hsign => ?_
  refine (expr_derives fuel .lowest c₂).bind fun value c₃ hvalue => ?_
  exact .expect (by decide) fun _ c₄ hclose =>
    .spanFrom (.pure (.assign hname (.intro hsign hvalue) hclose))

theorem callStmt_derives (fuel : Nat) {c : Cursor} (hkind : c.current.kind = .identifier) :
    Derives (Stmt.Derived c) (callStmt .standard fuel) c := by
  have hexpr := (expr_derives fuel .lowest c).and_of_ok
    (P := fun e => ∀ callee arguments span, e = .call callee arguments span →
      callee.isHeaded = true)
    fun e c' hok callee arguments span heq => headed_of_expr hkind (heq ▸ hok)
  unfold callStmt
  refine .get fun _ => hexpr.bind fun e c₁ he => ?_
  obtain ⟨hcall, hheaded⟩ := he
  split
  · exact .expect (by decide) fun _ c₂ hclose =>
      .spanFrom (.pure (.call hkind hcall (hheaded _ _ _ rfl) hclose))
  · exact .fail _

theorem identifierStmt_derives (fuel : Nat) {c : Cursor} (hkind : c.current.kind = .identifier) :
    Derives (Stmt.Derived c) (identifierStmt .standard fuel) c := by
  have hvariable : Derives (Stmt.Derived c)
      (varDecl .standard fuel >>= fun decl => return .define decl) c :=
    (varDecl_derives fuel c).bind fun _ _ hdecl => .pure (.define hdecl)
  unfold identifierStmt
  refine .peekKind (.peekKind ?_)
  split
  · next hcolon _ =>
    refine .next hkind (by decide) fun c₁ hname => ?_
    rw [hname.peek_one] at hcolon
    exact .next hcolon (by decide) fun _ _ => .fail _
  · exact hvariable
  · exact hvariable
  · exact assignment_derives fuel c
  · exact callStmt_derives fuel hkind

theorem returnStmt_derives (fuel : Nat) {c : Cursor} (hkind : c.current.kind = .returnWord) :
    Derives (Stmt.Derived c) (returnStmt .standard fuel) c := by
  unfold returnStmt
  refine .next hkind (by decide) fun c₁ hword => ?_
  have hresult : Derives (Optional Expr.Derived c₁) (optionalValue .standard fuel) c₁ := by
    unfold optionalValue
    refine .currentKind ?_
    split
    · exact .pure .absent
    · exact (expr_derives fuel .lowest c₁).bind fun _ _ he => .pure (.present he)
  refine hresult.bind fun value c₂ hvalue => ?_
  exact .expect (by decide) fun _ c₃ hclose => .spanFrom (.pure (.ret hword hvalue hclose))

theorem untilClose_derives {item : Parse Stmt} {I : Cursor → Stmt → Cursor → Prop}
    (h : ∀ c, Derives (I c) item c) (fuel : Nat) (c : Cursor) :
    Derives (Sequence I c) (untilClose item fuel) c := by
  induction fuel generalizing c with
  | zero => exact .exhausted
  | succ fuel ih =>
    rw [untilClose]
    refine .currentKind ?_
    split
    · exact .pure .nil
    · exact .fail _
    · exact (h c).bind fun _ c₁ hfirst => (ih c₁).bind fun _ _ hrest => .pure (.cons hfirst hrest)

/-- Statements that begin by the same rule begin with the same word. -/
theorem eq_of_stmt {kind kind' : TokenKind} {rule : StmtRule}
    (h : Grammar.standard.stmt kind = some rule) (h' : Grammar.standard.stmt kind' = some rule) :
    kind = kind' := by
  revert h h'
  cases kind <;> rintro ⟨⟩ <;> cases kind' <;> rintro ⟨⟩
  all_goals rfl

mutual

theorem stmt_derives : ∀ (fuel : Nat) (c : Cursor),
    Derives (Stmt.Derived c) (stmt .standard fuel) c
  | 0, _ => .exhausted
  | fuel + 1, c => by
    simp only [stmt]
    refine .currentKind ?_
    split
    · exact .fail _
    · next hrule => exact identifierStmt_derives fuel (eq_of_stmt hrule rfl)
    · next hrule => exact ifStmt_derives fuel c (eq_of_stmt hrule rfl)
    · next hrule => exact whileStmt_derives fuel c (eq_of_stmt hrule rfl)
    · next hrule => exact returnStmt_derives fuel (eq_of_stmt hrule rfl)

theorem block_derives : ∀ (fuel : Nat) (c : Cursor),
    Derives (Block.Derived Stmt.Derived c) (block .standard fuel) c
  | 0, _ => .exhausted
  | fuel + 1, c => by
    simp only [block]
    refine .expectFor (by decide) fun _ c₁ hstart => ?_
    refine (untilClose_derives (stmt_derives fuel) fuel c₁).bind fun body c₂ hbody => ?_
    exact .expect (by decide) fun _ c₃ hclose => .spanFrom (.pure (.intro hstart hbody hclose))

theorem ifStmt_derives : ∀ (fuel : Nat) (c : Cursor), c.current.kind = .ifWord →
    Derives (Stmt.Derived c) (ifStmt .standard fuel) c
  | 0, _, _ => .exhausted
  | fuel + 1, c, hkind => by
    simp only [ifStmt]
    refine .next hkind (by decide) fun c₁ hword => ?_
    refine (expr_derives fuel .lowest c₁).bind fun condition c₂ hcondition => ?_
    refine (block_derives fuel c₂).bind fun thenBlock c₃ hthen => ?_
    exact (elseBlock_derives fuel c₃).bind fun elseBlock c₄ helse =>
      .spanFrom (.pure (.ifThenElse hword hcondition hthen helse id))

theorem elseBlock_derives : ∀ (fuel : Nat) (c : Cursor),
    Derives (ElseDerived Stmt.Derived c) (elseBlock .standard fuel) c
  | 0, _ => .exhausted
  | fuel + 1, c => by
    simp only [elseBlock]
    refine .skip (by decide) fun found c₁ hfound => ?_
    cases hfound with
    | present word =>
      refine .currentKind ?_
      split
      · next hif =>
        exact (ifStmt_derives fuel c₁ hif).bind fun nested c₂ hnested =>
          .pure (.nested word hif hnested)
      · exact (block_derives fuel c₁).mono fun _ _ hblock => .block word hblock
    | absent kind_ne => exact .get fun _ => .pure (.absent kind_ne)

theorem whileStmt_derives : ∀ (fuel : Nat) (c : Cursor), c.current.kind = .whileWord →
    Derives (Stmt.Derived c) (whileStmt .standard fuel) c
  | 0, _, _ => .exhausted
  | fuel + 1, c, hkind => by
    simp only [whileStmt]
    refine .next hkind (by decide) fun c₁ hword => ?_
    refine (expr_derives fuel .lowest c₁).bind fun condition c₂ hcondition => ?_
    exact (block_derives fuel c₂).bind fun body c₃ hbody =>
      .spanFrom (.pure (.whileDo hword hcondition hbody id))

end

/-! ## Functions and programs -/

theorem parameter_derives (fuel : Nat) (c : Cursor) :
    Derives (Parameter.Derived c) (Parse.parameter .standard fuel) c := by
  unfold Parse.parameter
  refine .expectFor (by decide) fun _ c₁ hname => .expect (by decide) fun _ c₂ hcolon => ?_
  refine .skip (by decide) fun _ c₃ hword => ?_
  exact (explicitType_derives fuel _ c₃).bind fun _ c₄ htype =>
    .spanFrom (.pure (.intro hname hcolon (.intro hword htype.1) htype.2))

theorem function_derives (fuel : Nat) (c : Cursor) :
    Derives (FunDecl.Derived c) (Parse.function .standard fuel) c := by
  unfold Parse.function
  refine .expect (by decide) fun _ c₁ hname => .expect (by decide) fun _ c₂ hcolon => ?_
  refine .expect (by decide) fun _ c₃ hstart => ?_
  refine (Derives.untilParen (parameter_derives fuel) fuel).bind fun parameters c₄ htaken => ?_
  refine .expectFor (by decide) fun _ c₅ hclose => .expectFor (by decide) fun _ c₆ harrow => ?_
  refine (explicitType_derives fuel _ c₆).bind fun result c₇ htype => ?_
  refine .expectFor (by decide) fun _ c₈ hsign => ?_
  refine (block_derives fuel c₈).bind fun body c₉ hbody => .skip (by decide) fun _ c₁₀ hend => ?_
  exact .spanFrom (.pure
    (.intro hname hcolon hstart htaken hclose harrow htype.1 htype.2 hsign hbody hend))

theorem definition_derives (fuel : Nat) (program : Program) (c : Cursor) :
    Derives (Program.Grows program c) (definition .standard fuel program) c := by
  have hvariable : Derives (Program.Grows program c) (varDecl .standard fuel >>= fun decl =>
      return { program with globals := program.globals ++ [decl] }) c :=
    (varDecl_derives fuel c).bind fun _ _ hdecl => .pure (.global hdecl .done)
  unfold definition
  refine .currentKind ?_
  split
  · next hkind =>
    refine .peekKind (.peekKind ?_)
    split
    · exact (function_derives fuel c).bind fun _ _ hf => .pure (.function hf .done)
    · exact hvariable
    · exact hvariable
    · exact .next hkind (by decide) fun _ _ => .fail _
  · exact .fail _

theorem definitions_derives (fuel : Nat) (program : Program) (c : Cursor) :
    Derives (fun p c' => Program.Grows program c p c' ∧ c'.current.kind = .endOfInput)
      (definitions .standard fuel program) c := by
  induction fuel generalizing program c with
  | zero => exact .exhausted
  | succ fuel ih =>
    rw [definitions]
    refine .get fun _ => ?_
    split
    · exact (definition_derives fuel program c).bind fun p c₁ hfirst =>
        (ih p c₁).mono fun _ _ hrest => ⟨hfirst.trans hrest.1, hrest.2⟩
    · next hend => exact .pure ⟨.done, by simpa [Cursor.hasTokens] using hend⟩

/-- **What is parsed has a derivation.**  A program that is parsed has grown from definitions that
are derived one after the other, up to the end of the input.  If there is no program, an error
stands at some token or at a number that has no value; parsing always comes to one of the two. -/
theorem grows_of_parse (tokens : List Token) :
    match parse tokens with
    | .ok p => ∃ c, Program.Grows .empty (Cursor.ofTokens tokens) p c ∧
        c.current.kind = .endOfInput
    | .error (.fault e) => (Cursor.ofTokens tokens).StopsWith e
    | .error .exhausted => False := by
  have hfuel := parse_ne_exhausted tokens
  have hderives := definitions_derives (Cursor.ofTokens tokens).fuel .empty
    (Cursor.ofTokens tokens) (Cursor.ends_ofTokens tokens)
  simp only [parse] at hfuel ⊢
  generalize definitions .standard (Cursor.ofTokens tokens).fuel .empty
    (Cursor.ofTokens tokens) = result at hderives hfuel ⊢
  cases result with
  | ok p c' => exact ⟨c', hderives.2⟩
  | error stop c' =>
    cases stop with
    | fault e => exact hderives
    | exhausted => exact hfuel rfl

end TypedImp
