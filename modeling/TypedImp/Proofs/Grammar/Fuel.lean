import TypedImp.Grammar.Programs
import TypedImp.Proofs.Grammar.Moves

/-!
# Expressions have fuel enough

Between one token and the next there are at most four calls, so four units of fuel for each token
left, and a few more, are enough for an expression.  Once that is known the fuel can be forgotten:
`exprAbove` and `extension` are parsers without fuel, and each rule of the grammar is an equation
between them.

* `Parse.steady_expr`: fuel enough for any expression.
* `Parse.Stopped`, `Parse.stopped_of_expr`: where expressions stop.
* `Parse.ample`, `Parse.exprAbove`, `Parse.extension`: parsing without fuel.
* `Parse.exprAbove_of_start`, `Parse.extension_of_follow`, `Parse.extension_of_stopped`: the rules.
-/

namespace TypedImp

namespace Parse

variable {c : Cursor}

/-! ## Expressions -/

theorem settles_number {enough : Nat → Prop} (hc : c.Ends)
    (hcurrent : c.current.kind ≠ .endOfInput) : Settles enough 1 (fun _ => number) c := by
  unfold number
  refine (Settles.next hc hcurrent).bind (m := 0) hc fun whole c' hc' hlength => .get ?_
  dsimp only
  split
  · refine Settles.pass.bind (m := 0) hc' fun _ d hd _ => ?_
    refine Settles.pass.bind (m := 0) hd fun _ d' _ _ => ?_
    split
    · exact .pure _
    · exact .raise _
  · split
    · exact .pure _
    · exact .raise _

theorem settles_primary {enough : Nat → Prop} (hc : c.Ends) :
    Settles enough 1 (fun _ => primary) c := by
  unfold primary
  refine .get ?_
  split
  · next h => exact settles_number hc (by rw [h]; decide)
  iterate 4
    · next h =>
      exact (Settles.next hc (by rw [h]; decide)).bind (m := 0) hc fun _ _ _ _ => .pure _
  · exact .raise _

/-- What expressions need of the tokens behind the current one: there any expression settles. -/
def ExprsSettleBehind (c : Cursor) : Prop :=
  ∀ c' : Cursor, c'.Ends → c'.ahead.length < c.ahead.length → ∀ above,
    Steady 3 1 (expr .standard · above) c'

theorem steady_unaryExpr (hc : c.Ends) (hcurrent : c.current.kind ≠ .endOfInput)
    (hexpr : ExprsSettleBehind c) : Steady 1 1 (unaryExpr .standard) c := by
  refine .succ ?_
  simp only [unaryExpr]
  refine Steady.bind (m := 0) (e := 3) hc (.next hc hcurrent) (by omega)
    fun operator c' hc' hlength => .get ?_
  split
  · exact Settles.pass.bind (m := 0) hc' fun _ _ _ _ => .pure _
  · refine Steady.mono (d := 3) (n := 1) ?_ (by omega) (by omega)
    exact Steady.bind (m := 0) (e := 0) hc' (hexpr c' hc' hlength .unary) (by omega)
      fun _ _ _ _ => .pure _

theorem steady_groupExpr (hc : c.Ends) (hcurrent : c.current.kind ≠ .endOfInput)
    (hexpr : ExprsSettleBehind c) : Steady 1 1 (groupExpr .standard) c := by
  refine .succ ?_
  simp only [groupExpr]
  refine Steady.bind (m := 0) (e := 3) hc (.next hc hcurrent) (by omega) fun _ c' hc' hlength => ?_
  refine Steady.mono (d := 3) (n := 2) ?_ (by omega) (by omega)
  refine Steady.bind (m := 1) (e := 0) hc' (hexpr c' hc' hlength .lowest) (by omega)
    fun inner d hd _ => ?_
  exact (Settles.expectFor hd (by decide) _).bind (m := 0) hd fun _ _ _ _ => .pure _

theorem steady_binaryExpr (hc : c.Ends) (hcurrent : c.current.kind ≠ .endOfInput)
    (hexpr : ExprsSettleBehind c) (precedence : Precedence) (left : Expr) :
    Steady 1 1 (binaryExpr .standard · precedence left) c := by
  refine .succ ?_
  simp only [binaryExpr]
  refine Steady.bind (m := 0) (e := 3) hc (.next hc hcurrent) (by omega)
    fun operator c' hc' hlength => ?_
  split
  · exact .raise _
  · refine Steady.mono (d := 3) (n := 1) ?_ (by omega) (by omega)
    exact Steady.bind (m := 0) (e := 0) hc' (hexpr c' hc' hlength precedence) (by omega)
      fun _ _ _ _ => .pure _

theorem steady_callExpr (hc : c.Ends) (hcurrent : c.current.kind ≠ .endOfInput)
    (hexpr : ExprsSettleBehind c) (callee : Expr) :
    Steady 1 1 (callExpr .standard · callee) c := by
  refine .succ ?_
  simp only [callExpr]
  refine Steady.bind (m := 0) (e := 3) hc (.next hc hcurrent) (by omega) fun _ c' hc' hlength => ?_
  have harguments := Steady.untilParen hc' (by omega)
    fun d hd hle => hexpr d hd (by omega) .lowest
  refine (Steady.bind (m := 1) (e := 0) hc' harguments (by omega) fun _ d hd _ => ?_).weaken
    (Nat.zero_le _)
  exact (Settles.expectFor hd (by decide) _).bind (m := 0) hd fun _ _ _ _ => .pure _

/-- A token that continues an expression is not an end of input. -/
theorem ne_end_of_follow {kind : TokenKind} {precedence : Precedence} {rule : FollowRule}
    (h : Grammar.standard.follow kind = some (precedence, rule)) : kind ≠ .endOfInput := by
  rintro rfl
  cases h

theorem ne_end_of_start {kind : TokenKind} {rule : StartRule}
    (h : Grammar.standard.start kind = some rule) : kind ≠ .endOfInput := by
  rintro rfl
  cases h

theorem steady_followExpr (hc : c.Ends) (hcurrent : c.current.kind ≠ .endOfInput)
    (hexpr : ExprsSettleBehind c) (precedence : Precedence) (rule : FollowRule) (left : Expr) :
    Steady 2 1 (followExpr .standard · precedence rule left) c := by
  refine .succ ?_
  cases rule with
  | operator => exact steady_binaryExpr hc hcurrent hexpr precedence left
  | call => exact steady_callExpr hc hcurrent hexpr left

theorem steady_extendExpr : ∀ {c : Cursor}, c.Ends → ExprsSettleBehind c →
    ∀ (above : Precedence) (left : Expr), Steady 3 0 (extendExpr .standard · above left) c
  | c, hc, hexpr, above, left => by
    refine .succ ?_
    simp only [extendExpr]
    refine .currentKind ?_
    split
    · exact .pure _
    · next precedence rule hfollow =>
      split
      · have hone := steady_followExpr hc (ne_end_of_follow hfollow) hexpr precedence rule left
        refine (Steady.bind (m := 0) (e := 3) hc hone (by omega)
          fun left c' hc' hlength => ?_).weaken (Nat.zero_le _)
        exact steady_extendExpr hc' (fun d hd hlt => hexpr d hd (by omega)) above left
      · exact .pure _
termination_by c => c.ahead.length

theorem steady_startExpr (hc : c.Ends) (hcurrent : c.current.kind ≠ .endOfInput)
    (hexpr : ExprsSettleBehind c) (rule : StartRule) :
    Steady 2 1 (startExpr .standard · rule) c := by
  refine .succ ?_
  cases rule with
  | primary => exact settles_primary hc
  | operator => exact steady_unaryExpr hc hcurrent hexpr
  | group => exact steady_groupExpr hc hcurrent hexpr

/-- **Any expression settles**, with four units of fuel for each token left and three more. -/
theorem steady_expr : ∀ {c : Cursor}, c.Ends → ∀ above,
    Steady 3 1 (expr .standard · above) c
  | c, hc, above => by
    have hexpr : ExprsSettleBehind c := fun c' hc' _ above => steady_expr hc' above
    refine .succ ?_
    simp only [expr]
    refine .currentKind ?_
    split
    · exact .fail _
    · next rule hstart =>
      have hleft := steady_startExpr hc (ne_end_of_start hstart) hexpr rule
      refine Steady.bind (m := 0) (e := 3) hc hleft (by omega) fun left c' hc' hlength => ?_
      exact steady_extendExpr hc' (fun d hd hlt => hexpr d hd (by omega)) above left
termination_by c => c.ahead.length

theorem exprsSettleBehind (c : Cursor) : ExprsSettleBehind c :=
  fun _ hc' _ above => steady_expr hc' above

/-! ## Where expressions stop -/

theorem bind_eq_ok {α β : Type} {x : Parse α} {f : α → Parse β} {b : β} {c c'' : Cursor}
    (h : (x >>= f) c = .ok b c'') : ∃ a c', x c = .ok a c' ∧ f a c' = .ok b c'' := by
  change EStateM.bind x f c = _ at h
  rw [EStateM.bind] at h
  cases hx : x c with
  | ok a c' =>
    rw [hx] at h
    exact ⟨a, c', rfl, h⟩
  | error stop c' =>
    rw [hx] at h
    cases h

/-- No token that binds more tightly than `above` stands here. -/
def Stopped (above : Precedence) (c : Cursor) : Prop :=
  ∀ p rule, Grammar.standard.follow c.current.kind = some (p, rule) → ¬ above < p

theorem stopped_or_follow (above : Precedence) (c : Cursor) : Stopped above c ∨
    ∃ p rule, Grammar.standard.follow c.current.kind = some (p, rule) ∧ above < p := by
  cases hfollow : Grammar.standard.follow c.current.kind with
  | none =>
    left
    intro p rule hsome
    rw [hfollow] at hsome
    cases hsome
  | some found =>
    by_cases hlt : above < found.1
    · exact .inr ⟨found.1, found.2, rfl, hlt⟩
    · left
      intro p rule hsome
      rw [hfollow] at hsome
      cases hsome
      exact hlt

theorem next_bind {α : Type} (f : Token → Parse α) (c : Cursor) :
    (next >>= f) c = f c.current c.advance := rfl

theorem currentKind_bind {α : Type} (f : TokenKind → Parse α) (c : Cursor) :
    (currentKind >>= f) c = f c.current.kind c := rfl

theorem peekKind_bind {α : Type} (n : Nat) (f : TokenKind → Parse α) (c : Cursor) :
    (peekKind n >>= f) c = f (c.peek n).kind c := rfl

theorem extendExpr_of_stopped {above : Precedence} (h : Stopped above c) (fuel : Nat)
    (left : Expr) : extendExpr .standard (fuel + 1) above left c = .ok left c := by
  simp only [extendExpr]
  rw [currentKind_bind]
  cases hfollow : Grammar.standard.follow c.current.kind with
  | none => rfl
  | some found =>
    simp only [if_neg (h found.1 found.2 hfollow)]
    rfl

theorem extendExpr_of_follow {above p : Precedence} {rule : FollowRule}
    (hfollow : Grammar.standard.follow c.current.kind = some (p, rule)) (habove : above < p)
    (fuel : Nat) (left : Expr) : extendExpr .standard (fuel + 1) above left c =
      (followExpr .standard fuel p rule left >>= extendExpr .standard fuel above) c := by
  simp only [extendExpr]
  rw [currentKind_bind]
  simp only [hfollow, if_pos habove]

theorem expr_of_start {rule : StartRule}
    (hstart : Grammar.standard.start c.current.kind = some rule) (fuel : Nat)
    (above : Precedence) : expr .standard (fuel + 1) above c =
      (startExpr .standard fuel rule >>= extendExpr .standard fuel above) c := by
  simp only [expr]
  rw [currentKind_bind]
  simp only [hstart]

theorem expr_of_start_none (hstart : Grammar.standard.start c.current.kind = none) (fuel : Nat)
    (above : Precedence) :
    expr .standard (fuel + 1) above c = fail "expected an expression" c := by
  simp only [expr]
  rw [currentKind_bind]
  simp only [hstart]

theorem stopped_of_extendExpr {above : Precedence} {left e : Expr} {fuel : Nat} {c c' : Cursor}
    (h : extendExpr .standard fuel above left c = .ok e c') : Stopped above c' := by
  induction fuel generalizing left c with
  | zero => cases h
  | succ fuel ih =>
    rcases stopped_or_follow above c with hstop | ⟨p, rule, hfollow, hlt⟩
    · rw [extendExpr_of_stopped hstop] at h
      cases h
      exact hstop
    · rw [extendExpr_of_follow hfollow hlt] at h
      obtain ⟨left', d, -, h⟩ := bind_eq_ok h
      exact ih h

/-- Behind an expression there is nothing that would extend it. -/
theorem stopped_of_expr {above : Precedence} {e : Expr} {fuel : Nat} {c c' : Cursor}
    (h : expr .standard fuel above c = .ok e c') : Stopped above c' := by
  cases fuel with
  | zero => cases h
  | succ fuel =>
    cases hstart : Grammar.standard.start c.current.kind with
    | none =>
      rw [expr_of_start_none hstart] at h
      cases h
    | some rule =>
      rw [expr_of_start hstart] at h
      obtain ⟨left, d', -, h⟩ := bind_eq_ok h
      exact stopped_of_extendExpr h

/-! ## Without fuel -/

/-- A computation with fuel enough for the tokens left. -/
def ample {α : Type} (x : Nat → Parse α) : Parse α := fun c => x c.fuel c

section

variable {α β : Type} {d n : Nat}

theorem le_fuel (c : Cursor) (hd : d ≤ 8) : 4 * c.ahead.length + d ≤ c.fuel := by
  unfold Cursor.fuel
  omega

theorem ample_eq {x : Nat → Parse α} (h : Steady d n x c) (hd : d ≤ 8) {fuel : Nat}
    (hfuel : 4 * c.ahead.length + d ≤ fuel) : ample x c = x fuel c := by
  obtain ⟨r, hr, -⟩ := h
  exact (hr c.fuel (le_fuel c hd)).trans (hr fuel hfuel).symm

theorem advances_ample {x : Nat → Parse α} (h : Steady d n x c) (hd : d ≤ 8) :
    Advances n c (ample x c) := by
  obtain ⟨r, hr, hadvances⟩ := h
  rwa [show ample x c = r from hr c.fuel (le_fuel c hd)]

theorem ends_of_ample {x : Nat → Parse α} (hc : c.Ends) (h : Steady d n x c) (hd : d ≤ 8) {a : α}
    {c' : Cursor} (hok : ample x c = .ok a c') :
    c'.Ends ∧ c'.ahead.length + n ≤ c.ahead.length :=
  h.ends_of_ok hc (le_fuel c hd) hok

/-- Computations that do the same from a cursor on, followed by computations that do the same from
there on. -/
theorem bind_congr_at {x y : Parse α} {f g : α → Parse β} (hx : x c = y c)
    (hf : ∀ a c', y c = .ok a c' → f a c' = g a c') : (x >>= f) c = (y >>= g) c := by
  change EStateM.bind x f c = EStateM.bind y g c
  rw [EStateM.bind, EStateM.bind, hx]
  cases hy : y c with
  | ok a c' => exact hf a c' hy
  | error stop c' => rfl

/-- Fuel enough for two computations is enough for each. -/
theorem ample_bind {x : Nat → Parse α} {f : Nat → α → Parse β} {e m : Nat} (hc : c.Ends)
    (hx : Steady d n x c) (hd : d ≤ 8)
    (hf : ∀ a c', c'.Ends → c'.ahead.length + n ≤ c.ahead.length → Steady e m (f · a) c')
    (he : e ≤ 8) :
    ample (fun fuel => x fuel >>= f fuel) c = (ample x >>= fun a => ample (f · a)) c := by
  refine bind_congr_at rfl fun a c' hok => ?_
  obtain ⟨hc', hlength⟩ := ends_of_ample hc hx hd hok
  refine (ample_eq (hf a c' hc' hlength) he ?_).symm
  have := le_fuel c (Nat.le_refl 8)
  omega

theorem ample_succ {x : Nat → Parse α} (h : Steady d n x c) (hd : d ≤ 8) :
    ample x c = ample (fun fuel => x (fuel + 1)) c :=
  ample_eq h hd (by have := le_fuel c hd; omega)

end

/-- An expression made of what binds more tightly than `above`, read with fuel enough. -/
def exprAbove (above : Precedence) : Parse Expr := ample (expr .standard · above)

/-- An expression extended as far as possible, read with fuel enough. -/
def extension (above : Precedence) (left : Expr) : Parse Expr :=
  ample (extendExpr .standard · above left)

theorem exprAbove_eq (hc : c.Ends) (above : Precedence) {fuel : Nat}
    (hfuel : 4 * c.ahead.length + 3 ≤ fuel) : exprAbove above c = expr .standard fuel above c :=
  ample_eq (steady_expr hc above) (by omega) hfuel

theorem advances_exprAbove (hc : c.Ends) (above : Precedence) :
    Advances 1 c (exprAbove above c) :=
  advances_ample (steady_expr hc above) (by omega)

/-- Where nothing binds more tightly an expression is not extended. -/
theorem extension_of_stopped {above : Precedence} (hc : c.Ends) (hstop : Stopped above c)
    (left : Expr) : extension above left c = .ok left c := by
  have hsteady := steady_extendExpr hc (exprsSettleBehind c) above left
  rw [extension, ample_succ hsteady (by omega)]
  exact extendExpr_of_stopped hstop c.fuel left

/-- Where something binds more tightly an expression is extended by it and then further on. -/
theorem extension_of_follow {above p : Precedence} {rule : FollowRule} (hc : c.Ends)
    (hfollow : Grammar.standard.follow c.current.kind = some (p, rule)) (habove : above < p)
    (left : Expr) :
    extension above left c =
      (ample (followExpr .standard · p rule left) >>= extension above) c := by
  have hexprs := exprsSettleBehind c
  have hfollow' := steady_followExpr hc (ne_end_of_follow hfollow) hexprs p rule left
  rw [extension, ample_succ (steady_extendExpr hc hexprs above left) (by omega)]
  refine (extendExpr_of_follow hfollow habove c.fuel left).trans ?_
  exact ample_bind hc hfollow' (by omega)
    (fun left c' hc' _ => steady_extendExpr hc' (exprsSettleBehind c') above left) (by omega)

/-- An extension by an operator and a second operand. -/
theorem ample_followExpr_operator {p : Precedence} {op : BinaryOp} (hc : c.Ends)
    (hcurrent : c.current.kind ≠ .endOfInput) (hop : BinaryOp.ofKind? c.current.kind = some op)
    (left : Expr) :
    ample (followExpr .standard · p .operator left) c = (do
      let _ ← next
      let right ← exprAbove p
      return Expr.binary op left right (left.span.join right.span)) c := by
  have hexprs := exprsSettleBehind c
  have hlength := c.ahead_advance hc hcurrent
  have hfuel := le_fuel c (Nat.le_refl 8)
  rw [ample_succ (steady_followExpr hc hcurrent hexprs p .operator left) (by omega)]
  simp only [followExpr]
  rw [ample_succ (steady_binaryExpr hc hcurrent hexprs p left) (by omega)]
  simp only [ample, binaryExpr]
  rw [next_bind, next_bind]
  simp only [hop]
  exact bind_congr_at (exprAbove_eq hc.advance p (by omega)).symm fun _ _ _ => rfl

/-- An extension by arguments. -/
theorem ample_followExpr_call {p : Precedence} (hc : c.Ends)
    (hcurrent : c.current.kind ≠ .endOfInput) (callee : Expr) :
    ample (followExpr .standard · p .call callee) c = (do
      let _ ← next
      let arguments ← ample fun fuel => untilParen (expr .standard fuel .lowest) fuel
      let close ← expectFor .closeParen "expected `,` or `)` in call"
      return Expr.call callee arguments (callee.span.join close.span)) c := by
  have hexprs := exprsSettleBehind c
  have hlength := c.ahead_advance hc hcurrent
  have hfuel := le_fuel c (Nat.le_refl 8)
  rw [ample_succ (steady_followExpr hc hcurrent hexprs p .call callee) (by omega)]
  simp only [followExpr]
  rw [ample_succ (steady_callExpr hc hcurrent hexprs callee) (by omega)]
  simp only [callExpr]
  have harguments := Steady.untilParen (d := 3) hc.advance (by omega) fun d hd _ =>
    steady_expr hd .lowest
  exact bind_congr_at (y := ample fun fuel => untilParen (expr .standard fuel .lowest) fuel)
    (c := c.advance) (ample_eq harguments (by omega) (by omega)).symm fun _ _ _ => rfl

/-- The beginning of an expression, and its extension. -/
theorem exprAbove_of_start {rule : StartRule} (hc : c.Ends)
    (hstart : Grammar.standard.start c.current.kind = some rule) (above : Precedence) :
    exprAbove above c = (ample (startExpr .standard · rule) >>= extension above) c := by
  have hstart' := steady_startExpr hc (ne_end_of_start hstart) (exprsSettleBehind c) rule
  rw [exprAbove, ample_succ (steady_expr hc above) (by omega)]
  refine (expr_of_start hstart c.fuel above).trans ?_
  exact ample_bind hc hstart' (by omega)
    (fun left c' hc' _ => steady_extendExpr hc' (exprsSettleBehind c') above left) (by omega)

theorem exprAbove_of_start_none (hc : c.Ends)
    (hstart : Grammar.standard.start c.current.kind = none) (above : Precedence) :
    exprAbove above c = fail "expected an expression" c := by
  rw [exprAbove, ample_succ (steady_expr hc above) (by omega)]
  exact expr_of_start_none hstart c.fuel above

/-- A beginning that is a literal or a name. -/
theorem ample_startExpr_primary (hc : c.Ends) (hcurrent : c.current.kind ≠ .endOfInput) :
    ample (startExpr .standard · .primary) c = primary c := by
  rw [ample_succ (steady_startExpr hc hcurrent (exprsSettleBehind c) .primary) (by omega)]
  simp only [ample, startExpr]

/-- A beginning that is a minus with the magnitude of the least integer. -/
theorem ample_startExpr_least (hc : c.Ends) (hcurrent : c.current.kind ≠ .endOfInput)
    (hleast : (UnaryOp.ofKind c.current.kind = .minus && atLeastMagnitude c.advance) = true) :
    ample (startExpr .standard · .operator) c =
      .ok (.number (.int32 Int32.minValue) ("-" ++ c.advance.current.value)
        (c.current.span.join c.advance.current.span)) c.advance.advance := by
  have hexprs := exprsSettleBehind c
  rw [ample_succ (steady_startExpr hc hcurrent hexprs .operator) (by omega)]
  simp only [startExpr]
  rw [ample_succ (steady_unaryExpr hc hcurrent hexprs) (by omega)]
  simp only [ample, unaryExpr]
  change (if UnaryOp.ofKind c.current.kind = .minus && atLeastMagnitude c.advance then _ else _ :
    Parse Expr) c.advance = _
  rw [if_pos hleast]
  rfl

/-- A beginning that is an operator and its operand. -/
theorem ample_startExpr_operator (hc : c.Ends) (hcurrent : c.current.kind ≠ .endOfInput)
    (hleast : ¬ (UnaryOp.ofKind c.current.kind = .minus && atLeastMagnitude c.advance) = true) :
    ample (startExpr .standard · .operator) c = (do
      let operator ← next
      let operand ← exprAbove .unary
      return Expr.unary (.ofKind operator.kind) operand (operator.span.join operand.span)) c := by
  have hexprs := exprsSettleBehind c
  have hlength := c.ahead_advance hc hcurrent
  have hfuel := le_fuel c (Nat.le_refl 8)
  rw [ample_succ (steady_startExpr hc hcurrent hexprs .operator) (by omega)]
  simp only [startExpr]
  rw [ample_succ (steady_unaryExpr hc hcurrent hexprs) (by omega)]
  simp only [ample, unaryExpr]
  change (if UnaryOp.ofKind c.current.kind = .minus && atLeastMagnitude c.advance then _ else _ :
    Parse Expr) c.advance = (exprAbove .unary >>= fun operand => _) c.advance
  rw [if_neg hleast]
  exact bind_congr_at (exprAbove_eq hc.advance .unary (by omega)).symm fun _ _ _ => rfl

/-- A beginning in parentheses. -/
theorem ample_startExpr_group (hc : c.Ends) (hcurrent : c.current.kind ≠ .endOfInput) :
    ample (startExpr .standard · .group) c = (do
      let _ ← next
      let inner ← exprAbove .lowest
      let _ ← expectFor .closeParen "expected `)` to close the group"
      return inner) c := by
  have hexprs := exprsSettleBehind c
  have hlength := c.ahead_advance hc hcurrent
  have hfuel := le_fuel c (Nat.le_refl 8)
  rw [ample_succ (steady_startExpr hc hcurrent hexprs .group) (by omega)]
  simp only [startExpr]
  rw [ample_succ (steady_groupExpr hc hcurrent hexprs) (by omega)]
  simp only [groupExpr]
  exact bind_congr_at (y := exprAbove .lowest) (c := c.advance)
    (exprAbove_eq hc.advance .lowest (by omega)).symm fun _ _ _ => rfl

end Parse

end TypedImp
