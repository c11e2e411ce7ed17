import TypedImp.Proofs.Grammar.ProgramFuel
import TypedImp.Proofs.Printing.Reading

/-!
# Tokens past the end

Tokens that could be parsed may be followed by more tokens instead of an end of the input.  What is
parsed stays the same, with the same places, if what follows begins with a name, as definitions do.
Wherever the parser looks at a token to decide how to go on, a name decides as the end does: neither
continues an expression, gives a value to a variable or begins a second block, neither is a
semicolon that may be left out, and neither makes a number longer.

## Why only answers are compared

In front of the end parsing may stop with an error where it goes on in the longer list, so errors
say nothing.  An answer says that the end of the input was never passed: whatever passes a token
asks for one of another kind.

* `GoesOn`, `Cursor.Ahead`, `Cursor.Longer`: two cursors of which the second one has more ahead.
* `SeesOn`: tokens that are seen at corresponding places.
* `Resumes`: an answer that is given on the longer list as well.
* `expr_resumes`, `stmt_resumes`, `function_resumes`: the functions of the grammar.
* `definition_resumes`: **one definition in front of others**.
-/

namespace TypedImp

/-! ## Longer lists -/

/-- The second list has the tokens of the first one up to its end, and then goes on with `rest`. -/
inductive GoesOn : (rest : List Token) → List Token → List Token → Prop
  | stop {last first : Token} {more : List Token} (atEnd : last.kind = .endOfInput)
    (opens : first.kind = .endOfInput ∨ first.kind = .identifier) :
    GoesOn (first :: more) [last] (first :: more)
  | pass {rest : List Token} {t : Token} {ts ts' : List Token} (visible : t.kind ≠ .endOfInput)
    (more : GoesOn rest ts ts') : GoesOn rest (t :: ts) (t :: ts')

/-- Behind the tokens before the end there may be others. -/
theorem goesOn_append {ts more : List Token} {first last : Token}
    (hvisible : ∀ t ∈ ts, t.kind ≠ .endOfInput) (hlast : last.kind = .endOfInput)
    (hopens : first.kind = .endOfInput ∨ first.kind = .identifier) :
    GoesOn (first :: more) (ts ++ [last]) (ts ++ first :: more) := by
  induction ts with
  | nil => exact .stop hlast hopens
  | cons t ts ih =>
    obtain ⟨ht, hts⟩ := List.forall_mem_cons.mp hvisible
    exact .pass ht (ih hts)

/-- Tokens that are seen at corresponding places of two such lists. -/
def SeesOn (t t' : Token) : Prop :=
  t' = t ∨ t.kind = .endOfInput ∧ (t'.kind = .endOfInput ∨ t'.kind = .identifier)

namespace SeesOn

variable {t t' : Token}

theorem kind_eq_iff (h : SeesOn t t') {k : TokenKind} (hend : k ≠ .endOfInput)
    (hname : k ≠ .identifier) : t'.kind = k ↔ t.kind = k := by
  rcases h with rfl | ⟨hlast, hopens⟩
  · exact Iff.rfl
  · rw [hlast]
    rcases hopens with hopens | hopens
    · rw [hopens]
    · rw [hopens]
      exact ⟨fun heq => absurd heq.symm hname, fun heq => absurd heq.symm hend⟩

theorem follow_eq (h : SeesOn t t') :
    Grammar.standard.follow t'.kind = Grammar.standard.follow t.kind := by
  rcases h with rfl | ⟨hlast, hopens⟩
  · rfl
  · rw [hlast]
    rcases hopens with hopens | hopens
    · rw [hopens]
    · rw [hopens]
      rfl

end SeesOn

namespace Cursor

/-- The second cursor has the same tokens ahead, and more behind them. -/
def Ahead (rest : List Token) (c c' : Cursor) : Prop :=
  GoesOn rest (c.current :: c.ahead) (c'.current :: c'.ahead)

/-- Moreover the last token that was passed is the same, so spans that end with it are the same.  At
the start of a list this need not be so, but every definition begins with passing its name. -/
structure Longer (rest : List Token) (c c' : Cursor) : Prop where
  ahead : c.Ahead rest c'
  previousSpan_eq : c'.previousSpan = c.previousSpan

variable {rest : List Token} {c c' : Cursor}

namespace Ahead

theorem sees (h : c.Ahead rest c') : SeesOn c.current c'.current := by
  unfold Ahead at h
  generalize hts : c.current :: c.ahead = ts at h
  generalize hts' : c'.current :: c'.ahead = ts' at h
  cases h with
  | stop atEnd opens =>
    obtain ⟨rfl, -⟩ := List.cons.inj hts
    obtain ⟨rfl, -⟩ := List.cons.inj hts'
    exact .inr ⟨atEnd, opens⟩
  | pass visible more => exact .inl ((List.cons.inj hts').1.trans (List.cons.inj hts).1.symm)

theorem current_eq (h : c.Ahead rest c') (hcurrent : c.current.kind ≠ .endOfInput) :
    c'.current = c.current :=
  h.sees.resolve_right fun hlast => hcurrent hlast.1

/-- At the end of the shorter list there is the rest of the longer one. -/
theorem rest_eq (h : c.Ahead rest c') (hend : c.current.kind = .endOfInput) :
    c'.current :: c'.ahead = rest := by
  unfold Ahead at h
  generalize hts : c.current :: c.ahead = ts at h
  generalize c'.current :: c'.ahead = ts' at h ⊢
  cases h with
  | stop => rfl
  | pass visible => exact absurd ((List.cons.inj hts).1 ▸ hend) visible

/-- In front of the end there are tokens ahead. -/
theorem exists_cons (h : c.Ahead rest c') (hcurrent : c.current.kind ≠ .endOfInput) :
    ∃ t ts t' ts', c.ahead = t :: ts ∧ c'.ahead = t' :: ts' ∧
      GoesOn rest (t :: ts) (t' :: ts') := by
  unfold Ahead at h
  generalize hts : c.current :: c.ahead = ts at h
  generalize hts' : c'.current :: c'.ahead = ts' at h
  cases h with
  | stop atEnd opens =>
    obtain ⟨rfl, -⟩ := List.cons.inj hts
    exact absurd atEnd hcurrent
  | pass visible more =>
    obtain ⟨-, rfl⟩ := List.cons.inj hts
    obtain ⟨-, rfl⟩ := List.cons.inj hts'
    generalize c.ahead = us at more
    generalize c'.ahead = us' at more
    cases more with
    | stop atEnd opens => exact ⟨_, _, _, _, rfl, rfl, .stop atEnd opens⟩
    | pass visible' more => exact ⟨_, _, _, _, rfl, rfl, .pass visible' more⟩

/-- Passing a token in front of the end. -/
theorem advance (h : c.Ahead rest c') (hcurrent : c.current.kind ≠ .endOfInput) :
    c.advance.Longer rest c'.advance := by
  have hsame := h.current_eq hcurrent
  obtain ⟨t, ts, t', ts', hahead, hahead', more⟩ := h.exists_cons hcurrent
  rw [advance_of_cons hcurrent hahead, advance_of_cons (hsame ▸ hcurrent) hahead', hsame]
  exact ⟨more, rfl⟩

/-- Looking one token ahead in front of the end. -/
theorem peek_one_eq (h : c.Ahead rest c') (hcurrent : c.current.kind ≠ .endOfInput) :
    c.peek 1 = c.advance.current ∧ c'.peek 1 = c'.advance.current := by
  obtain ⟨t, ts, t', ts', hahead, hahead', -⟩ := h.exists_cons hcurrent
  rw [advance_of_cons hcurrent hahead,
    advance_of_cons (h.current_eq hcurrent ▸ hcurrent) hahead', peek, peek, hahead, hahead']
  exact ⟨rfl, rfl⟩

theorem peek_one (h : c.Ahead rest c') (hcurrent : c.current.kind ≠ .endOfInput) :
    SeesOn (c.peek 1) (c'.peek 1) := by
  obtain ⟨hone, hone'⟩ := h.peek_one_eq hcurrent
  rw [hone, hone']
  exact (h.advance hcurrent).ahead.sees

theorem peek_two (h : c.Ahead rest c') (hcurrent : c.current.kind ≠ .endOfInput)
    (hone : (c.peek 1).kind ≠ .endOfInput) : SeesOn (c.peek 2) (c'.peek 2) := by
  obtain ⟨t, ts, t', ts', hahead, hahead', -⟩ := h.exists_cons hcurrent
  have htwo : c.peek 2 = c.advance.peek 1 ∧ c'.peek 2 = c'.advance.peek 1 := by
    rw [advance_of_cons hcurrent hahead,
      advance_of_cons (h.current_eq hcurrent ▸ hcurrent) hahead', peek, peek, peek, peek, hahead,
      hahead', List.getLastD_cons, List.getLastD_cons]
    exact ⟨rfl, rfl⟩
  rw [htwo.1, htwo.2]
  exact (h.advance hcurrent).ahead.peek_one ((h.peek_one_eq hcurrent).1 ▸ hone)

end Ahead

end Cursor

/-! ## Answers on longer lists -/

/-- If the first computation answers from `c` on, then the second one gives the same answer from
`c'` on, and the cursors correspond again. -/
def Resumes (rest : List Token) {α : Type} (x y : Parse α) (c c' : Cursor) : Prop :=
  ∀ a d, x c = .ok a d → ∃ d', y c' = .ok a d' ∧ d.Longer rest d'

namespace Resumes

section

variable {rest : List Token} {α β : Type} {c c' : Cursor} {y : Parse α}

theorem pure (hc : c.Longer rest c') (a : α) :
    Resumes rest (Pure.pure a) (Pure.pure a) c c' := by
  rintro _ _ ⟨⟩
  exact ⟨c', rfl, hc⟩

theorem exhausted : Resumes rest Parse.exhausted y c c' := nofun

theorem raise {e : Error} : Resumes rest (Parse.raise e) y c c' := nofun

theorem fail {message : String} : Resumes rest (Parse.fail message) y c c' := nofun

/-- One computation after the other. -/
theorem bind {x : Parse α} {f g : α → Parse β} (hx : Resumes rest x y c c')
    (hf : ∀ a d d', d.Longer rest d' → Resumes rest (f a) (g a) d d') :
    Resumes rest (x >>= f) (y >>= g) c c' := by
  intro b e hok
  obtain ⟨a, d, hfirst, hrest⟩ := Parse.bind_eq_ok hok
  obtain ⟨d', hfirst', hd⟩ := hx a d hfirst
  rw [Parse.bind_of_ok hfirst']
  exact hf a d d' hd b e hrest

theorem get {f g : Cursor → Parse β} (h : Resumes rest (f c) (g c') c c') :
    Resumes rest (MonadState.get >>= f) (MonadState.get >>= g) c c' := h

theorem currentKind {f g : TokenKind → Parse β}
    (h : Resumes rest (f c.current.kind) (g c'.current.kind) c c') :
    Resumes rest (Parse.currentKind >>= f) (Parse.currentKind >>= g) c c' := h

/-- A choice by the current token, of a kind that a name behind the end is not taken for. -/
theorem ifKind {kind : TokenKind} {x x' y y' : Parse β} (hc : c.Ahead rest c')
    (hend : kind ≠ .endOfInput) (hname : kind ≠ .identifier)
    (hthen : c.current.kind = kind → Resumes rest x x' c c') (helse : Resumes rest y y' c c') :
    Resumes rest (Parse.currentKind >>= fun k => if k = kind then x else y)
      (Parse.currentKind >>= fun k => if k = kind then x' else y') c c' := by
  have hsame := hc.sees.kind_eq_iff hend hname
  refine currentKind ?_
  by_cases hfound : c.current.kind = kind
  · rw [if_pos hfound, if_pos (hsame.mpr hfound)]
    exact hthen hfound
  · rw [if_neg hfound, if_neg (mt hsame.mp hfound)]
    exact helse

theorem spanFrom {span : Span} {f g : Span → Parse β} (hc : c.Longer rest c')
    (h : Resumes rest (f (span.join c.previousSpan)) (g (span.join c.previousSpan)) c c') :
    Resumes rest (Parse.spanFrom span >>= f) (Parse.spanFrom span >>= g) c c' := by
  refine get ?_
  rw [hc.previousSpan_eq]
  exact h

/-- The two tokens behind the current one, if an end among them decides as a name does. -/
theorem peekKinds {f : TokenKind → TokenKind → Parse β} (hc : c.Ahead rest c')
    (hcurrent : c.current.kind ≠ .endOfInput)
    (hone : ∀ k k', f .endOfInput k = f .identifier k')
    (htwo : ∀ k, f k .endOfInput = f k .identifier)
    (h : ∀ k k', Resumes rest (f k k') (f k k') c c') :
    Resumes rest (Parse.peekKind 1 >>= fun k => Parse.peekKind 2 >>= f k)
      (Parse.peekKind 1 >>= fun k => Parse.peekKind 2 >>= f k) c c' := by
  have heq : f (c'.peek 1).kind (c'.peek 2).kind = f (c.peek 1).kind (c.peek 2).kind := by
    by_cases hend : (c.peek 1).kind = .endOfInput
    · have hopens : (c'.peek 1).kind = .endOfInput ∨ (c'.peek 1).kind = .identifier :=
        (hc.peek_one hcurrent).elim (fun hsame => .inl (hsame ▸ hend)) And.right
      rw [hend]
      rcases hopens with hopens | hopens <;> rw [hopens]
      · exact (hone _ .endOfInput).trans (hone _ .endOfInput).symm
      · exact (hone _ _).symm
    · have hfirst : c'.peek 1 = c.peek 1 :=
        (hc.peek_one hcurrent).resolve_right fun hlast => hend hlast.1
      rw [hfirst]
      rcases hc.peek_two hcurrent hend with hsame | ⟨hlast, hopens⟩
      · rw [hsame]
      · rw [hlast]
        rcases hopens with hopens | hopens <;> rw [hopens]
        exact (htwo _).symm
  refine get (get ?_)
  rw [heq]
  exact h _ _

/-- Passing a token in front of the end. -/
theorem pass (hc : c.Ahead rest c') (hcurrent : c.current.kind ≠ .endOfInput) :
    Resumes rest Parse.next Parse.next c c' := by
  rintro _ _ ⟨⟩
  exact ⟨c'.advance, by rw [Parse.next_apply, hc.current_eq hcurrent], hc.advance hcurrent⟩

theorem next {f g : Token → Parse β} (hc : c.Ahead rest c')
    (hcurrent : c.current.kind ≠ .endOfInput)
    (h : c.advance.Longer rest c'.advance →
      Resumes rest (f c.current) (g c.current) c.advance c'.advance) :
    Resumes rest (Parse.next >>= f) (Parse.next >>= g) c c' := by
  have hrest := h (hc.advance hcurrent)
  unfold Resumes
  rw [Parse.next_bind, Parse.next_bind, hc.current_eq hcurrent]
  exact hrest

/-- A token that is required is met in front of the end. -/
theorem required {kind : TokenKind} {e e' : Error} (hc : c.Ahead rest c')
    (hkind : kind ≠ .endOfInput) :
    Resumes rest (if c.current.kind = kind then Parse.next else Parse.raise e)
      (if c'.current.kind = kind then Parse.next else Parse.raise e') c c' := by
  by_cases hfound : c.current.kind = kind
  · have hcurrent : c.current.kind ≠ .endOfInput := hfound ▸ hkind
    rw [if_pos hfound, if_pos (hc.current_eq hcurrent ▸ hfound)]
    exact pass hc hcurrent
  · rw [if_neg hfound]
    exact raise

theorem expect {kind : TokenKind} {f g : Token → Parse β} (hc : c.Ahead rest c')
    (hkind : kind ≠ .endOfInput)
    (h : ∀ t d d', d.Longer rest d' → Resumes rest (f t) (g t) d d') :
    Resumes rest (Parse.expect kind >>= f) (Parse.expect kind >>= g) c c' :=
  bind (get (required hc hkind)) h

theorem expectFor {kind : TokenKind} {message : String} {f g : Token → Parse β}
    (hc : c.Ahead rest c') (hkind : kind ≠ .endOfInput)
    (h : ∀ t d d', d.Longer rest d' → Resumes rest (f t) (g t) d d') :
    Resumes rest (Parse.expectFor kind message >>= f) (Parse.expectFor kind message >>= g)
      c c' :=
  bind (get (required hc hkind)) h

/-- A token that may be left out is not taken for the name behind the end. -/
theorem skip {kind : TokenKind} {f g : Bool → Parse β} (hc : c.Longer rest c')
    (hend : kind ≠ .endOfInput) (hname : kind ≠ .identifier)
    (h : ∀ found d d', d.Longer rest d' → Resumes rest (f found) (g found) d d') :
    Resumes rest (Parse.skip kind >>= f) (Parse.skip kind >>= g) c c' := by
  refine bind (ifKind hc.ahead hend hname (fun hfound => ?_) (pure hc false)) h
  exact next hc.ahead (hfound ▸ hend) fun hd => pure hd true

/-- Items with commas between them. -/
theorem commaSeparated {item : Parse α}
    (h : ∀ d d', d.Longer rest d' → Resumes rest item item d d') (fuel : Nat)
    (hc : c.Longer rest c') :
    Resumes rest (Parse.commaSeparated item fuel) (Parse.commaSeparated item fuel) c c' := by
  induction fuel generalizing c c' with
  | zero => exact exhausted
  | succ fuel ih =>
    refine (h c c' hc).bind fun first d d' hd =>
      ifKind hd.ahead (by decide) (by decide) (fun hfound => ?_) (pure hd _)
    refine next hd.ahead (by rw [hfound]; decide) fun he => ?_
    exact (ih he).bind fun others _ _ hlast => pure hlast _

theorem untilParen {item : Parse α}
    (h : ∀ d d', d.Longer rest d' → Resumes rest item item d d') (fuel : Nat)
    (hc : c.Longer rest c') :
    Resumes rest (Parse.untilParen item fuel) (Parse.untilParen item fuel) c c' :=
  ifKind hc.ahead (by decide) (by decide) (fun _ => pure hc _) (commaSeparated h fuel hc)

end

end Resumes

namespace Parse

variable {rest : List Token} {c c' : Cursor}

/-! ## Expressions -/

/-- Neither an end nor a name is a point or digits. -/
theorem formsDecimal_eq (hc : c.Ahead rest c') (whole : Token) :
    formsDecimal whole c'.current (c'.peek 1) = formsDecimal whole c.current (c.peek 1) := by
  by_cases hcurrent : c.current.kind = .endOfInput
  · rcases hc.sees with hsame | ⟨-, hopens⟩
    · simp [formsDecimal, hsame, hcurrent]
    · rcases hopens with hopens | hopens <;> simp [formsDecimal, hopens, hcurrent]
  · rw [hc.current_eq hcurrent]
    rcases hc.peek_one hcurrent with hsame | ⟨hlast, hopens⟩
    · rw [hsame]
    · rcases hopens with hopens | hopens <;> simp [formsDecimal, hopens, hlast]

theorem number_resumes (hc : c.Longer rest c') (hcurrent : c.current.kind ≠ .endOfInput) :
    Resumes rest number number c c' := by
  refine .next hc.ahead hcurrent fun hd => .get ?_
  dsimp only
  rw [formsDecimal_eq hd.ahead]
  split
  · next hforms =>
    simp only [formsDecimal, Bool.and_eq_true, decide_eq_true_eq] at hforms
    obtain ⟨⟨⟨hdot, hnumber⟩, -⟩, -⟩ := hforms
    have hpoint : c.advance.current.kind ≠ .endOfInput := by rw [hdot]; decide
    have hdigits : (c.advance.peek 1).kind ≠ .endOfInput := by rw [hnumber]; decide
    have hfraction : c'.advance.peek 1 = c.advance.peek 1 :=
      (hd.ahead.peek_one hpoint).resolve_right fun hlast => hdigits hlast.1
    rw [hfraction]
    rw [(hd.ahead.peek_one_eq hpoint).1] at hdigits
    refine .next hd.ahead hpoint fun he => .next he.ahead hdigits fun hlast => ?_
    split
    · exact .pure hlast _
    · exact .raise
  · split
    · exact .pure hd _
    · exact .raise

theorem primary_resumes (hc : c.Longer rest c') (hcurrent : c.current.kind ≠ .endOfInput) :
    Resumes rest primary primary c c' := by
  refine .get ?_
  rw [hc.ahead.current_eq hcurrent]
  split
  · exact number_resumes hc hcurrent
  · exact .next hc.ahead hcurrent fun hd => .pure hd _
  · exact .next hc.ahead hcurrent fun hd => .pure hd _
  · exact .next hc.ahead hcurrent fun hd => .pure hd _
  · exact .next hc.ahead hcurrent fun hd => .pure hd _
  · exact .raise

theorem atLeastMagnitude_eq_of_ahead (hc : c.Ahead rest c') :
    atLeastMagnitude c' = atLeastMagnitude c := by
  by_cases hcurrent : c.current.kind = .endOfInput
  · rcases hc.sees with hsame | ⟨-, hopens⟩
    · simp [atLeastMagnitude, hsame, hcurrent]
    · rcases hopens with hopens | hopens <;> simp [atLeastMagnitude, hopens, hcurrent]
  · have hdot := (hc.peek_one hcurrent).kind_eq_iff (k := .dot) (by decide) (by decide)
    simp only [atLeastMagnitude, hc.current_eq hcurrent, ne_eq, hdot]

mutual

theorem expr_resumes : ∀ (fuel : Nat) (above : Precedence) {c c' : Cursor},
    c.Longer rest c' → Resumes rest (expr .standard fuel above)
      (expr .standard fuel above) c c'
  | 0, _, _, _, _ => by simpa only [expr] using .exhausted
  | fuel + 1, above, c, c', hc => by
    simp only [expr]
    refine .currentKind ?_
    cases hrule : Grammar.standard.start c.current.kind with
    | none => exact .fail
    | some rule =>
      have hcurrent := ne_end_of_start hrule
      rw [hc.ahead.current_eq hcurrent, hrule]
      exact (startExpr_resumes fuel rule hc hcurrent).bind fun left _ _ hd =>
        extendExpr_resumes fuel above left hd

theorem startExpr_resumes : ∀ (fuel : Nat) (rule : StartRule) {c c' : Cursor},
    c.Longer rest c' → c.current.kind ≠ .endOfInput → Resumes rest
      (startExpr .standard fuel rule) (startExpr .standard fuel rule) c c'
  | 0, _, _, _, _, _ => by simpa only [startExpr] using .exhausted
  | fuel + 1, .primary, _, _, hc, hcurrent => by
    simpa only [startExpr] using primary_resumes hc hcurrent
  | fuel + 1, .operator, _, _, hc, hcurrent => by
    simpa only [startExpr] using unaryExpr_resumes fuel hc hcurrent
  | fuel + 1, .group, _, _, hc, hcurrent => by
    simpa only [startExpr] using groupExpr_resumes fuel hc hcurrent

theorem extendExpr_resumes : ∀ (fuel : Nat) (above : Precedence) (left : Expr) {c c' : Cursor},
    c.Longer rest c' → Resumes rest (extendExpr .standard fuel above left)
      (extendExpr .standard fuel above left) c c'
  | 0, _, _, _, _, _ => by simpa only [extendExpr] using .exhausted
  | fuel + 1, above, left, c, c', hc => by
    simp only [extendExpr]
    refine .currentKind ?_
    rw [hc.ahead.sees.follow_eq]
    cases hfollow : Grammar.standard.follow c.current.kind with
    | none => exact .pure hc left
    | some follow =>
      obtain ⟨precedence, rule⟩ := follow
      dsimp only
      split
      · exact (followExpr_resumes fuel precedence rule left hc (ne_end_of_follow hfollow)).bind
          fun longer _ _ hd => extendExpr_resumes fuel above longer hd
      · exact .pure hc left

theorem followExpr_resumes : ∀ (fuel : Nat) (precedence : Precedence) (rule : FollowRule)
    (left : Expr) {c c' : Cursor}, c.Longer rest c' → c.current.kind ≠ .endOfInput →
    Resumes rest (followExpr .standard fuel precedence rule left)
      (followExpr .standard fuel precedence rule left) c c'
  | 0, _, _, _, _, _, _, _ => by simpa only [followExpr] using .exhausted
  | fuel + 1, precedence, .operator, left, _, _, hc, hcurrent => by
    simpa only [followExpr] using binaryExpr_resumes fuel precedence left hc hcurrent
  | fuel + 1, _, .call, left, _, _, hc, hcurrent => by
    simpa only [followExpr] using callExpr_resumes fuel left hc hcurrent

theorem unaryExpr_resumes : ∀ (fuel : Nat) {c c' : Cursor}, c.Longer rest c' →
    c.current.kind ≠ .endOfInput →
    Resumes rest (unaryExpr .standard fuel) (unaryExpr .standard fuel) c c'
  | 0, _, _, _, _ => by simpa only [unaryExpr] using .exhausted
  | fuel + 1, c, c', hc, hcurrent => by
    simp only [unaryExpr]
    refine .next hc.ahead hcurrent fun hd => .get ?_
    rw [atLeastMagnitude_eq_of_ahead hd.ahead]
    split
    · next hleast =>
      have hnumber : c.advance.current.kind = .number := by
        simp only [atLeastMagnitude, Bool.and_eq_true, decide_eq_true_eq] at hleast
        exact hleast.2.1.1
      exact .next hd.ahead (by rw [hnumber]; decide) fun he => .pure he _
    · exact (expr_resumes fuel .unary hd).bind fun operand _ _ he => .pure he _

theorem groupExpr_resumes : ∀ (fuel : Nat) {c c' : Cursor}, c.Longer rest c' →
    c.current.kind ≠ .endOfInput →
    Resumes rest (groupExpr .standard fuel) (groupExpr .standard fuel) c c'
  | 0, _, _, _, _ => by simpa only [groupExpr] using .exhausted
  | fuel + 1, c, c', hc, hcurrent => by
    simp only [groupExpr]
    refine .next hc.ahead hcurrent fun hd => ?_
    refine (expr_resumes fuel .lowest hd).bind fun inner _ _ he => ?_
    exact .expectFor he.ahead (by decide) fun _ _ _ hlast => .pure hlast inner

theorem binaryExpr_resumes : ∀ (fuel : Nat) (precedence : Precedence) (left : Expr)
    {c c' : Cursor}, c.Longer rest c' → c.current.kind ≠ .endOfInput →
    Resumes rest (binaryExpr .standard fuel precedence left)
      (binaryExpr .standard fuel precedence left) c c'
  | 0, _, _, _, _, _, _ => by simpa only [binaryExpr] using .exhausted
  | fuel + 1, precedence, left, c, c', hc, hcurrent => by
    simp only [binaryExpr]
    refine .next hc.ahead hcurrent fun hd => ?_
    cases BinaryOp.ofKind? c.current.kind with
    | none => exact .raise
    | some op => exact (expr_resumes fuel precedence hd).bind fun right _ _ he => .pure he _

theorem callExpr_resumes : ∀ (fuel : Nat) (callee : Expr) {c c' : Cursor},
    c.Longer rest c' → c.current.kind ≠ .endOfInput →
    Resumes rest (callExpr .standard fuel callee) (callExpr .standard fuel callee) c c'
  | 0, _, _, _, _, _ => by simpa only [callExpr] using .exhausted
  | fuel + 1, callee, c, c', hc, hcurrent => by
    simp only [callExpr]
    refine .next hc.ahead hcurrent fun hd => ?_
    refine (Resumes.untilParen (fun _ _ he => expr_resumes fuel .lowest he) fuel hd).bind
      fun arguments _ _ he => ?_
    exact .expectFor he.ahead (by decide) fun _ _ _ hlast => .pure hlast _

end

/-! ## Types and variables -/

theorem type_resumes : ∀ (fuel : Nat) {c c' : Cursor}, c.Longer rest c' →
    Resumes rest (type .standard fuel) (type .standard fuel) c c'
  | 0, _, _, _ => by simpa only [type] using .exhausted
  | fuel + 1, c, c', hc => by
    simp only [type]
    refine .currentKind ?_
    by_cases hcurrent : c.current.kind = .endOfInput
    · rw [hcurrent]
      exact .fail
    · rw [hc.ahead.current_eq hcurrent]
      cases Grammar.standard.type c.current.kind with
      | none => exact .fail
      | some rule =>
        cases rule with
        | name => exact .expect hc.ahead (by decide) fun _ _ _ hd => .pure hd _
        | pointer =>
          cases fuel with
          | zero => simpa only [pointerType] using .exhausted
          | succ fuel =>
            simp only [pointerType]
            exact .expect hc.ahead (by decide) fun _ _ _ hd =>
              (type_resumes fuel hd).bind fun _ _ _ he => .pure he _
        | deduced => exact .expect hc.ahead (by decide) fun _ _ _ hd => .pure hd _

theorem explicitType_resumes (fuel : Nat) (message : String) (hc : c.Longer rest c') :
    Resumes rest (explicitType .standard fuel message) (explicitType .standard fuel message)
      c c' := by
  refine .ifKind hc.ahead (by decide) (by decide) (fun _ => .fail) ?_
  refine (type_resumes fuel hc).bind fun t _ _ hd => ?_
  split
  · exact .fail
  · exact .pure hd t

theorem typeAndValue_resumes (fuel : Nat) (hc : c.Longer rest c') :
    Resumes rest (typeAndValue .standard fuel) (typeAndValue .standard fuel) c c' := by
  unfold typeAndValue bindingType valueAfter
  refine .skip hc (by decide) (by decide) fun found _ _ hd => ?_
  split
  · exact (expr_resumes fuel .lowest hd).bind fun e _ _ he => .pure he _
  · refine .expect hd.ahead (by decide) fun _ _ _ he => .bind ?_ fun type _ _ hf => ?_
    · exact .skip he (by decide) (by decide) fun _ _ _ hf =>
        (type_resumes fuel hf).bind fun _ _ _ hlast => .pure hlast _
    · refine .bind (.skip hf (by decide) (by decide) fun found _ _ hlast => ?_)
        fun value _ _ hlast => .pure hlast _
      split
      · exact (expr_resumes fuel .lowest hlast).bind fun e _ _ he => .pure he _
      · exact .pure hlast _

/-- The token that closes a construct, and the span of the construct. -/
theorem close_resumes {α : Type} {kind : TokenKind} {span : Span} {f : Span → α}
    (hc : c.Longer rest c') (hkind : kind ≠ .endOfInput) :
    Resumes rest (expect kind >>= fun _ => spanFrom span >>= fun span => pure (f span))
      (expect kind >>= fun _ => spanFrom span >>= fun span => pure (f span)) c c' :=
  .expect hc.ahead hkind fun _ _ _ hd => .spanFrom hd (.pure hd _)

theorem varDecl_resumes (fuel : Nat) (hc : c.Ahead rest c') :
    Resumes rest (varDecl .standard fuel) (varDecl .standard fuel) c c' := by
  refine .expect hc (by decide) fun name _ _ hd => ?_
  refine (typeAndValue_resumes fuel hd).bind fun ⟨type, value⟩ _ _ he => ?_
  exact close_resumes he (by decide)

/-! ## Statements -/

theorem assignment_resumes (fuel : Nat) (hc : c.Longer rest c') :
    Resumes rest (assignment .standard fuel) (assignment .standard fuel) c c' := by
  refine .expect hc.ahead (by decide) fun name _ _ hd => ?_
  refine .expect hd.ahead (by decide) fun _ _ _ he => ?_
  exact (expr_resumes fuel .lowest he).bind fun value _ _ hf => close_resumes hf (by decide)

theorem callStmt_resumes (fuel : Nat) (hc : c.Longer rest c')
    (hcurrent : c.current.kind ≠ .endOfInput) :
    Resumes rest (callStmt .standard fuel) (callStmt .standard fuel) c c' := by
  refine .get ?_
  rw [hc.ahead.current_eq hcurrent]
  refine (expr_resumes fuel .lowest hc).bind fun e _ _ hd => ?_
  split
  · exact close_resumes hd (by decide)
  · exact .fail

theorem identifierStmt_resumes (fuel : Nat) (hc : c.Longer rest c')
    (hcurrent : c.current.kind ≠ .endOfInput) :
    Resumes rest (identifierStmt .standard fuel) (identifierStmt .standard fuel) c c' := by
  have hdefine : Resumes rest (varDecl .standard fuel >>= fun decl => return Stmt.define decl)
      (varDecl .standard fuel >>= fun decl => return Stmt.define decl) c c' :=
    (varDecl_resumes fuel hc.ahead).bind fun decl _ _ hd => .pure hd _
  refine .peekKinds hc.ahead hcurrent (fun _ _ => rfl) (fun k => by cases k <;> rfl) fun k k' => ?_
  split
  · nofun
  · exact hdefine
  · exact hdefine
  · exact assignment_resumes fuel hc
  · exact callStmt_resumes fuel hc hcurrent

theorem returnStmt_resumes (fuel : Nat) (hc : c.Longer rest c')
    (hcurrent : c.current.kind ≠ .endOfInput) :
    Resumes rest (returnStmt .standard fuel) (returnStmt .standard fuel) c c' := by
  unfold returnStmt optionalValue
  refine .next hc.ahead hcurrent fun hd => .bind ?_ fun value _ _ he => close_resumes he (by decide)
  refine .ifKind hd.ahead (by decide) (by decide) (fun _ => .pure hd _) ?_
  exact (expr_resumes fuel .lowest hd).bind fun e _ _ he => .pure he _

theorem untilClose_resumes {item : Parse Stmt}
    (h : ∀ d d', d.Longer rest d' → Resumes rest item item d d') (fuel : Nat)
    (hc : c.Longer rest c') : Resumes rest (untilClose item fuel) (untilClose item fuel) c c' := by
  induction fuel generalizing c c' with
  | zero => exact .exhausted
  | succ fuel ih =>
    rw [untilClose]
    refine .currentKind ?_
    by_cases hcurrent : c.current.kind = .endOfInput
    · rw [hcurrent]
      exact .fail
    · rw [hc.ahead.current_eq hcurrent]
      split
      · exact .pure hc _
      · exact .fail
      · exact (h c c' hc).bind fun first _ _ hd => (ih hd).bind fun _ _ _ he => .pure he _

mutual

theorem stmt_resumes : ∀ (fuel : Nat) {c c' : Cursor}, c.Longer rest c' →
    Resumes rest (stmt .standard fuel) (stmt .standard fuel) c c'
  | 0, _, _, _ => by simpa only [stmt] using .exhausted
  | fuel + 1, c, c', hc => by
    simp only [stmt]
    refine .currentKind ?_
    cases hrule : Grammar.standard.stmt c.current.kind with
    | none => exact .fail
    | some rule =>
      have hcurrent := ne_end_of_stmt hrule
      rw [hc.ahead.current_eq hcurrent, hrule]
      cases rule with
      | identifier => exact identifierStmt_resumes fuel hc hcurrent
      | ifThenElse => exact ifStmt_resumes fuel hc hcurrent
      | whileDo => exact whileStmt_resumes fuel hc hcurrent
      | ret => exact returnStmt_resumes fuel hc hcurrent

theorem block_resumes : ∀ (fuel : Nat) {c c' : Cursor}, c.Longer rest c' →
    Resumes rest (block .standard fuel) (block .standard fuel) c c'
  | 0, _, _, _ => by simpa only [block] using .exhausted
  | fuel + 1, c, c', hc => by
    simp only [block]
    refine .expectFor hc.ahead (by decide) fun start _ _ hd => ?_
    refine (untilClose_resumes (fun _ _ he => stmt_resumes fuel he) fuel hd).bind
      fun body _ _ he => ?_
    exact close_resumes he (by decide)

theorem ifStmt_resumes : ∀ (fuel : Nat) {c c' : Cursor}, c.Longer rest c' →
    c.current.kind ≠ .endOfInput →
    Resumes rest (ifStmt .standard fuel) (ifStmt .standard fuel) c c'
  | 0, _, _, _, _ => by simpa only [ifStmt] using .exhausted
  | fuel + 1, c, c', hc, hcurrent => by
    simp only [ifStmt]
    refine .next hc.ahead hcurrent fun hd => ?_
    refine (expr_resumes fuel .lowest hd).bind fun condition _ _ he => ?_
    refine (block_resumes fuel he).bind fun thenBlock _ _ hf => ?_
    refine (elseBlock_resumes fuel hf).bind fun elseBlock _ _ hlast => ?_
    exact .spanFrom hlast (.pure hlast _)

theorem elseBlock_resumes : ∀ (fuel : Nat) {c c' : Cursor}, c.Longer rest c' →
    Resumes rest (elseBlock .standard fuel) (elseBlock .standard fuel) c c'
  | 0, _, _, _ => by simpa only [elseBlock] using .exhausted
  | fuel + 1, c, c', hc => by
    simp only [elseBlock]
    refine .skip hc (by decide) (by decide) fun found d d' hd => ?_
    split
    · refine .ifKind hd.ahead (by decide) (by decide) (fun hfound => ?_) (block_resumes fuel hd)
      exact (ifStmt_resumes fuel hd (by rw [hfound]; decide)).bind fun nested _ _ he => .pure he _
    · refine .get ?_
      rw [hd.previousSpan_eq]
      exact .pure hd _

theorem whileStmt_resumes : ∀ (fuel : Nat) {c c' : Cursor}, c.Longer rest c' →
    c.current.kind ≠ .endOfInput →
    Resumes rest (whileStmt .standard fuel) (whileStmt .standard fuel) c c'
  | 0, _, _, _, _ => by simpa only [whileStmt] using .exhausted
  | fuel + 1, c, c', hc, hcurrent => by
    simp only [whileStmt]
    refine .next hc.ahead hcurrent fun hd => ?_
    refine (expr_resumes fuel .lowest hd).bind fun condition _ _ he => ?_
    exact (block_resumes fuel he).bind fun body _ _ hlast => .spanFrom hlast (.pure hlast _)

end

/-! ## Definitions -/

theorem parameter_resumes (fuel : Nat) (hc : c.Longer rest c') :
    Resumes rest (parameter .standard fuel) (parameter .standard fuel) c c' := by
  refine .expectFor hc.ahead (by decide) fun name _ _ hd => ?_
  refine .expect hd.ahead (by decide) fun _ _ _ he => ?_
  refine .skip he (by decide) (by decide) fun isMutable _ _ hf => ?_
  exact (explicitType_resumes fuel _ hf).bind fun ty _ _ hlast => .spanFrom hlast (.pure hlast _)

/-- The semicolon behind a function may be left out, also in front of a name. -/
theorem function_resumes (fuel : Nat) (hc : c.Ahead rest c') :
    Resumes rest (function .standard fuel) (function .standard fuel) c c' := by
  refine .expect hc (by decide) fun name _ _ h₁ => ?_
  refine .expect h₁.ahead (by decide) fun _ _ _ h₂ => ?_
  refine .expect h₂.ahead (by decide) fun _ _ _ h₃ => ?_
  refine (Resumes.untilParen (fun _ _ hd => parameter_resumes fuel hd) fuel h₃).bind
    fun parameters _ _ h₄ => ?_
  refine .expectFor h₄.ahead (by decide) fun _ _ _ h₅ => ?_
  refine .expectFor h₅.ahead (by decide) fun _ _ _ h₆ => ?_
  refine (explicitType_resumes fuel _ h₆).bind fun result _ _ h₇ => ?_
  refine .expectFor h₇.ahead (by decide) fun _ _ _ h₈ => ?_
  refine (block_resumes fuel h₈).bind fun body _ _ h₉ => ?_
  exact .skip h₉ (by decide) (by decide) fun _ _ _ hlast => .spanFrom hlast (.pure hlast _)

/-- **One definition in front of others**: it is read as if nothing followed. -/
theorem definition_resumes (fuel : Nat) (p : Program) (hc : c.Ahead rest c') :
    Resumes rest (definition .standard fuel p) (definition .standard fuel p) c c' := by
  have hvariable : Resumes rest
      (varDecl .standard fuel >>= fun decl => return { p with globals := p.globals ++ [decl] })
      (varDecl .standard fuel >>= fun decl => return { p with globals := p.globals ++ [decl] })
      c c' :=
    (varDecl_resumes fuel hc).bind fun decl _ _ hd => .pure hd _
  refine .currentKind ?_
  by_cases hname : c.current.kind = .identifier
  · have hcurrent : c.current.kind ≠ .endOfInput := by rw [hname]; decide
    rw [if_pos hname, if_pos (hc.current_eq hcurrent ▸ hname)]
    refine .peekKinds hc hcurrent (fun _ _ => rfl) (fun k => by cases k <;> rfl) fun k k' => ?_
    split
    · exact (function_resumes fuel hc).bind fun f _ _ hd => .pure hd _
    · exact hvariable
    · exact hvariable
    · exact .next hc hcurrent fun _ => .fail
  · rw [if_neg hname]
    exact .fail

end Parse

end TypedImp
