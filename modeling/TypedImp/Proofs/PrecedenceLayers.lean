import TypedImp.Proofs.Grammar.Fuel

/-!
# Precedence climbing is a layered grammar

Expressions are parsed by one table-driven recursion: a beginning, and then extensions as long as
the next token binds more tightly than what stands before.  The textbook alternative has a function
for every level, where each level reads operands of the next one and joins them from the left.  Here
the alternative is written out, and the two are shown to give the same result from every place in
every list of tokens: the same expression with the same spans and the same place behind it, or the
same error.

## Why the levels come apart

Extending above `p` is extending above the next tighter `q` as far as that goes, and then extending
above `p` (`extension_extension`).  After the first part nothing is left that binds more tightly
than `q`, so the second part meets operators of the level `q` only, and their right operands are
expressions above `q`: it is the loop of that level (`joined_eq`).

* `Layered`: the grammar with one function for each level.
* `expr_eq_layered`: **both parse the same**.
-/

namespace TypedImp

namespace Layered

open Parse

/-! ## The layered grammar

Only two places lead back from the innermost level to a whole expression: parentheses and arguments.
The levels are therefore given with the parser of whole expressions as a parameter, and
`expression` ties the knot. -/

/-- Operators of the loosest level. -/
def equalityOperator : TokenKind → Option BinaryOp
  | .equals => some .eq
  | .notEquals => some .ne
  | _ => none

def comparisonOperator : TokenKind → Option BinaryOp
  | .less => some .lt
  | .lessEquals => some .le
  | .greater => some .gt
  | .greaterEquals => some .ge
  | _ => none

def additiveOperator : TokenKind → Option BinaryOp
  | .plus => some .add
  | .dash => some .sub
  | _ => none

def multiplicativeOperator : TokenKind → Option BinaryOp
  | .star => some .mul
  | .slash => some .div
  | _ => none

/-- Operators before their operand. -/
def prefixOperator : TokenKind → Option UnaryOp
  | .dash => some .minus
  | .plus => some .plus
  | .not => some .not
  | _ => none

/-- Whether a minus stands directly before the magnitude of the least integer. -/
def atLeastInteger (c : Cursor) : Bool := c.current.kind = .dash && atLeastMagnitude c.advance

/-- A literal, a name or an expression between parentheses. -/
def primary (whole : Parse Expr) : Parse Expr := do
  let c ← get
  if atLeastInteger c then
    let minus ← next
    let magnitude ← next
    return .number (.int32 Int32.minValue) ("-" ++ magnitude.value)
      (minus.span.join magnitude.span)
  else
    match c.current.kind with
    | .number | .identifier | .string | .trueWord | .falseWord => Parse.primary
    | .openParen =>
      let _ ← next
      let inner ← whole
      let _ ← expectFor .closeParen "expected `)` to close the group"
      return inner
    | _ => fail "expected an expression"

/-- Any number of argument lists behind what is called. -/
def calls (whole : Parse Expr) : (fuel : Nat) → (callee : Expr) → Parse Expr
  | 0, _ => exhausted
  | fuel + 1, callee => do
    if (← currentKind) = .openParen then
      let _ ← next
      let arguments ← untilParen whole fuel
      let close ← expectFor .closeParen "expected `,` or `)` in call"
      calls whole fuel (.call callee arguments (callee.span.join close.span))
    else return callee

/-- A primary expression and its calls. -/
def call (whole : Parse Expr) (fuel : Nat) : Parse Expr := do
  calls whole fuel (← primary whole)

/-- Operators before a call; the least integer is not a negated number. -/
def unary (whole : Parse Expr) : (fuel : Nat) → Parse Expr
  | 0 => exhausted
  | fuel + 1 => do
    let c ← get
    if atLeastInteger c then call whole fuel
    else
      match prefixOperator c.current.kind with
      | some op =>
        let operator ← next
        let operand ← unary whole fuel
        return .unary op operand (operator.span.join operand.span)
      | none => call whole fuel

/-- Operands joined to `left` by the operators of one level. -/
def joined (operator : TokenKind → Option BinaryOp) (operand : Parse Expr) :
    (fuel : Nat) → (left : Expr) → Parse Expr
  | 0, _ => exhausted
  | fuel + 1, left => do
    match operator (← currentKind) with
    | some op =>
      let _ ← next
      let right ← operand
      joined operator operand fuel (.binary op left right (left.span.join right.span))
    | none => return left

/-- Operands and the operators of one level between them, grouped to the left. -/
def level (operator : TokenKind → Option BinaryOp) (operand : Parse Expr) (fuel : Nat) :
    Parse Expr := do
  joined operator operand fuel (← operand)

def multiplicative (whole : Parse Expr) (fuel : Nat) : Parse Expr :=
  level multiplicativeOperator (unary whole fuel) fuel

def additive (whole : Parse Expr) (fuel : Nat) : Parse Expr :=
  level additiveOperator (multiplicative whole fuel) fuel

def comparison (whole : Parse Expr) (fuel : Nat) : Parse Expr :=
  level comparisonOperator (additive whole fuel) fuel

def equality (whole : Parse Expr) (fuel : Nat) : Parse Expr :=
  level equalityOperator (comparison whole fuel) fuel

/-- A whole expression. -/
def expression : (fuel : Nat) → Parse Expr
  | 0 => exhausted
  | fuel + 1 => equality (expression fuel) fuel

end Layered

/-! ## Extensions level by level -/

namespace Parse

variable {c : Cursor}

theorem stopped_of_exprAbove {above : Precedence} {e : Expr} {c' : Cursor}
    (h : exprAbove above c = .ok e c') : Stopped above c' := stopped_of_expr h

theorem ends_of_exprAbove (hc : c.Ends) {above : Precedence} {e : Expr} {c' : Cursor}
    (hok : exprAbove above c = .ok e c') : c'.Ends ∧ c'.ahead.length + 1 ≤ c.ahead.length :=
  ends_of_ample hc (steady_expr hc above) (by omega) hok

/-- Extending above a looser precedence is extending above a tighter one first. -/
theorem extension_extension {p q : Precedence} (hpq : p.rank ≤ q.rank) : ∀ {c : Cursor}, c.Ends →
    ∀ left, extension p left c = (extension q left >>= extension p) c
  | c, hc, left => by
    rcases stopped_or_follow q c with hstop | ⟨r, rule, hfollow, hr⟩
    · exact (bind_congr_at (y := pure left) (g := extension p) (extension_of_stopped hc hstop left)
        fun _ _ _ => rfl).symm
    · have hp : p < r := Nat.lt_of_le_of_lt hpq hr
      have hone := steady_followExpr hc (ne_end_of_follow hfollow) (exprsSettleBehind c) r rule left
      calc extension p left c
          = (ample (followExpr .standard · r rule left) >>= extension p) c :=
            extension_of_follow hc hfollow hp left
        _ = (ample (followExpr .standard · r rule left) >>= fun left =>
              extension q left >>= extension p) c := by
            refine bind_congr_at rfl fun left' c' hok => ?_
            obtain ⟨hc', hlength⟩ := ends_of_ample hc hone (by omega) hok
            exact extension_extension hpq hc' left'
        _ = ((ample (followExpr .standard · r rule left) >>= extension q) >>= extension p) c := by
            rw [bind_assoc]
        _ = (extension q left >>= extension p) c :=
            bind_congr_at (extension_of_follow hc hfollow hr left).symm fun _ _ _ => rfl
termination_by c => c.ahead.length

/-- An expression above a looser precedence is one above a tighter one, extended. -/
theorem exprAbove_eq_bind {p q : Precedence} (hpq : p.rank ≤ q.rank) (hc : c.Ends) :
    exprAbove p c = (exprAbove q >>= extension p) c := by
  cases hstart : Grammar.standard.start c.current.kind with
  | none =>
    rw [exprAbove_of_start_none hc hstart]
    exact (bind_congr_at (y := fail "expected an expression") (exprAbove_of_start_none hc hstart q)
      fun _ _ _ => rfl).symm
  | some rule =>
    have hone := steady_startExpr hc (ne_end_of_start hstart) (exprsSettleBehind c) rule
    calc exprAbove p c
        = (ample (startExpr .standard · rule) >>= extension p) c := exprAbove_of_start hc hstart p
      _ = (ample (startExpr .standard · rule) >>= fun left =>
            extension q left >>= extension p) c := by
          refine bind_congr_at rfl fun left c' hok => ?_
          obtain ⟨hc', -⟩ := ends_of_ample hc hone (by omega) hok
          exact extension_extension hpq hc' left
      _ = ((ample (startExpr .standard · rule) >>= extension q) >>= extension p) c := by
          rw [bind_assoc]
      _ = (exprAbove q >>= extension p) c :=
          bind_congr_at (exprAbove_of_start hc hstart q).symm fun _ _ _ => rfl

end Parse

/-! ## The levels of binary operators -/

namespace Layered

open Parse

variable {c : Cursor}

/-- The levels of binary operators: the operators of a level, the precedence before it and its
own. -/
inductive IsLevel : (TokenKind → Option BinaryOp) → Precedence → Precedence → Prop
  | equality : IsLevel equalityOperator .lowest .equality
  | comparison : IsLevel comparisonOperator .equality .relational
  | additive : IsLevel additiveOperator .relational .additive
  | multiplicative : IsLevel multiplicativeOperator .additive .multiplicative

namespace IsLevel

variable {operator : TokenKind → Option BinaryOp} {p q : Precedence} {kind : TokenKind}

/-- Nothing lies between a level and the one before it. -/
theorem rank (h : IsLevel operator p q) : q.rank = p.rank + 1 := by
  cases h <;> rfl

/-- The table puts the operators of a level at its precedence. -/
theorem follow (h : IsLevel operator p q) {op : BinaryOp} (hop : operator kind = some op) :
    Grammar.standard.follow kind = some (q, .operator) ∧ BinaryOp.ofKind? kind = some op := by
  cases h <;> cases kind <;> cases hop <;> exact ⟨rfl, rfl⟩

/-- The table puts nothing else at the precedence of a level. -/
theorem ne (h : IsLevel operator p q) (hnone : operator kind = none) {r : Precedence}
    {rule : FollowRule} (hfollow : Grammar.standard.follow kind = some (r, rule)) :
    r.rank ≠ q.rank := by
  cases h <;> cases kind <;> cases hnone <;> cases hfollow <;> decide

end IsLevel

/-- The loop of a level, where nothing binds more tightly. -/
theorem joined_eq {operator : TokenKind → Option BinaryOp} {p q : Precedence}
    (hlevel : IsLevel operator p q) {operand : Parse Expr} {fuel : Nat} (hc : c.Ends)
    (hfuel : c.ahead.length < fuel) (hstop : Stopped q c)
    (hoperand : ∀ c', c'.Ends → c'.ahead.length < c.ahead.length → operand c' = exprAbove q c')
    (left : Expr) : joined operator operand fuel left c = extension p left c := by
  have hrank := hlevel.rank
  induction fuel generalizing c left with
  | zero => omega
  | succ fuel ih =>
    simp only [joined]
    rw [currentKind_bind]
    cases hop : operator c.current.kind with
    | none =>
      refine (extension_of_stopped hc (fun r rule hfollow (hr : p.rank < r.rank) => ?_) left).symm
      have hnot : ¬ q.rank < r.rank := hstop r rule hfollow
      have hne := hlevel.ne hop hfollow
      omega
    | some op =>
      obtain ⟨hfollow, hbinary⟩ := hlevel.follow hop
      have hcurrent := ne_end_of_follow hfollow
      have hlength := c.ahead_advance hc hcurrent
      have hpq : p < q := by
        change p.rank < q.rank
        omega
      have hextend : extension p left c = (do
          let _ ← next
          let right ← exprAbove q
          extension p (.binary op left right (left.span.join right.span))) c := by
        rw [extension_of_follow hc hfollow hpq, bind_congr_at (g := extension p)
          (ample_followExpr_operator hc hcurrent hbinary left) fun _ _ _ => rfl]
        simp only [bind_assoc, pure_bind]
      rw [hextend]
      change (operand >>= fun right => joined operator operand fuel _) c.advance =
        (exprAbove q >>= fun right => extension p _) c.advance
      refine bind_congr_at (hoperand c.advance hc.advance (by omega)) fun right c' hok => ?_
      obtain ⟨hc', hlength'⟩ := ends_of_exprAbove hc.advance hok
      exact ih hc' (by omega) (stopped_of_exprAbove hok)
        (fun d hd hlt => hoperand d hd (by omega)) _

/-- A level whose operands are expressions above `q` reads expressions above `p`. -/
theorem level_eq {operator : TokenKind → Option BinaryOp} {p q : Precedence}
    (hlevel : IsLevel operator p q) {operand : Parse Expr} {fuel : Nat} (hc : c.Ends)
    (hfuel : c.ahead.length < fuel)
    (hoperand : ∀ c', c'.Ends → c'.ahead.length ≤ c.ahead.length → operand c' = exprAbove q c') :
    level operator operand fuel c = exprAbove p c := by
  have hrank : p.rank ≤ q.rank := by
    have := hlevel.rank
    omega
  rw [exprAbove_eq_bind hrank hc, level]
  refine bind_congr_at (hoperand c hc (Nat.le_refl _)) fun left c' hok => ?_
  obtain ⟨hc', hlength⟩ := ends_of_exprAbove hc hok
  exact joined_eq hlevel hc' (by omega) (stopped_of_exprAbove hok)
    (fun d hd hlt => hoperand d hd (by omega)) left

/-! ## Calls and unary operators -/

theorem follow_ne_unary {kind : TokenKind} {p : Precedence} {rule : FollowRule}
    (h : Grammar.standard.follow kind = some (p, rule)) : p ≠ .unary := by
  rintro rfl
  cases kind <;> cases h

theorem eq_openParen_of_follow {kind : TokenKind} {p : Precedence} {rule : FollowRule}
    (h : Grammar.standard.follow kind = some (p, rule)) (hlt : Precedence.unary < p) :
    kind = .openParen := by
  cases kind <;> cases h <;> first | rfl | exact absurd hlt (by decide)

/-- No token has the precedence of unary operators, so calls come next after multiplication. -/
theorem exprAbove_multiplicative (hc : c.Ends) :
    exprAbove .multiplicative c = exprAbove .unary c := by
  rw [exprAbove_eq_bind (q := .unary) (by decide) hc]
  calc (exprAbove .unary >>= extension .multiplicative) c
      = (exprAbove .unary >>= pure) c := by
        refine bind_congr_at rfl fun left c' hok => ?_
        obtain ⟨hc', -⟩ := ends_of_exprAbove hc hok
        refine extension_of_stopped hc' (fun p rule hfollow hlt => ?_) left
        have hnot := stopped_of_exprAbove hok p rule hfollow
        have hne := follow_ne_unary hfollow
        revert hlt hnot hne
        cases p <;> decide
    _ = exprAbove .unary c := by rw [bind_pure]

/-- What stands in the place of whole expressions reads them, as long as few enough tokens are
left. -/
def Reads (whole : Parse Expr) (bound : Nat) : Prop :=
  ∀ c : Cursor, c.Ends → c.ahead.length < bound → whole c = exprAbove .lowest c

variable {whole : Parse Expr} {bound fuel : Nat}

theorem untilParen_eq (hwhole : Reads whole bound) (hc : c.Ends) (hbound : c.ahead.length < bound)
    (hfuel : c.ahead.length < fuel) :
    untilParen whole fuel c =
      ample (fun fuel => untilParen (expr .standard fuel .lowest) fuel) c := by
  -- both lists are made of items that settle: those of `whole`, and those of any ample fuel
  let item : Option Nat → Parse Expr
    | none => whole
    | some fuel => expr .standard fuel .lowest
  have hitem : ∀ c', c'.Ends → c'.ahead.length ≤ c.ahead.length →
      Settles (fun i => ∀ fuel, i = some fuel → 4 * c.ahead.length + 3 ≤ fuel) 1 item c' := by
    intro c' hc' hle
    refine ⟨exprAbove .lowest c', ?_, advances_exprAbove hc' .lowest⟩
    rintro (_ | fuel) henough
    · exact hwhole c' hc' (by omega)
    · have := henough fuel rfl
      exact (exprAbove_eq hc' .lowest (by omega)).symm
  obtain ⟨r, hr, -⟩ := Settles.commaSeparated hc hitem
  have hample : 4 * c.ahead.length + 3 ≤ c.fuel := by
    unfold Cursor.fuel
    omega
  have hleft := hr (none, fuel) ⟨nofun, hfuel⟩
  have hright := hr (some c.fuel, c.fuel)
    ⟨fun fuel heq => by cases heq; exact hample, show c.ahead.length < c.fuel by omega⟩
  simp only [ample, untilParen]
  change (if c.current.kind = .closeParen then _ else _ : Parse (List Expr)) c =
    (if c.current.kind = .closeParen then _ else _ : Parse (List Expr)) c
  split
  · rfl
  · exact hleft.trans hright.symm

/-- Argument lists are the only extensions above unary operators. -/
theorem calls_eq (hwhole : Reads whole bound) (hc : c.Ends) (hbound : c.ahead.length ≤ bound)
    (hfuel : c.ahead.length < fuel) (callee : Expr) :
    calls whole fuel callee c = extension .unary callee c := by
  induction fuel generalizing c callee with
  | zero => omega
  | succ fuel ih =>
    simp only [calls]
    change (if c.current.kind = .openParen then _ else _ : Parse Expr) c = _
    split
    · next hparen =>
      have hfollow : Grammar.standard.follow c.current.kind = some (.call, .call) := by
        rw [hparen]
        rfl
      have hcurrent := ne_end_of_follow hfollow
      have hlength := c.ahead_advance hc hcurrent
      have hextend : extension .unary callee c = (do
          let _ ← next
          let arguments ← ample fun fuel => untilParen (expr .standard fuel .lowest) fuel
          let close ← expectFor .closeParen "expected `,` or `)` in call"
          extension .unary (.call callee arguments (callee.span.join close.span))) c := by
        rw [extension_of_follow hc hfollow (by decide), bind_congr_at (g := extension .unary)
          (ample_followExpr_call hc hcurrent callee) fun _ _ _ => rfl]
        simp only [bind_assoc, pure_bind]
      rw [hextend]
      change (untilParen whole fuel >>= fun arguments => _ : Parse Expr) c.advance =
        ((ample fun fuel => untilParen (expr .standard fuel .lowest) fuel) >>= fun arguments => _ :
          Parse Expr) c.advance
      have harguments := Steady.untilParen (d := 3) hc.advance (by omega) fun d hd _ =>
        steady_expr hd .lowest
      refine bind_congr_at (untilParen_eq hwhole hc.advance (by omega) (by omega))
        fun arguments c' hok => ?_
      obtain ⟨hc', hlength'⟩ := ends_of_ample hc.advance harguments (by omega) hok
      refine bind_congr_at rfl fun close c'' hok' => ?_
      have hsettles : ∀ message, Settles (fun _ : Unit => True) 1
          (fun _ => expectFor .closeParen message) c' := fun message =>
        .expectFor hc' (by decide) message
      obtain ⟨hc'', hlength''⟩ := (hsettles _).ends_of_ok hc' (i := ()) trivial hok'
      exact ih hc'' (by omega) (by omega) _
    · next hparen =>
      exact (extension_of_stopped hc (fun p rule hfollow hlt =>
        hparen (eq_openParen_of_follow hfollow hlt)) callee).symm

/-- A primary expression is a beginning that is not a prefix operator. -/
theorem primary_eq (hwhole : Reads whole bound) (hc : c.Ends) (hbound : c.ahead.length ≤ bound)
    (hfirst : atLeastInteger c = true ∨ prefixOperator c.current.kind = none) :
    (Grammar.standard.start c.current.kind = none ∧
        primary whole c = fail "expected an expression" c) ∨
      ∃ rule, Grammar.standard.start c.current.kind = some rule ∧
        primary whole c = ample (startExpr .standard · rule) c := by
  by_cases hleast : atLeastInteger c = true
  · right
    obtain ⟨hdash, hmagnitude⟩ : c.current.kind = .dash ∧ atLeastMagnitude c.advance = true := by
      simpa [atLeastInteger] using hleast
    refine ⟨.operator, by rw [hdash]; rfl, ?_⟩
    rw [ample_startExpr_least hc (by rw [hdash]; decide) (by rw [hdash, hmagnitude]; rfl)]
    unfold primary
    change (if atLeastInteger c then _ else _ : Parse Expr) c = _
    rw [if_pos hleast]
    rfl
  · have hnone : prefixOperator c.current.kind = none := hfirst.resolve_left hleast
    have hprimary : primary whole c = (match c.current.kind with
        | .number | .identifier | .string | .trueWord | .falseWord => Parse.primary
        | .openParen => do
          let _ ← next
          let inner ← whole
          let _ ← expectFor .closeParen "expected `)` to close the group"
          return inner
        | _ => fail "expected an expression") c := by
      unfold primary
      change (if atLeastInteger c then _ else _ : Parse Expr) c = _
      rw [if_neg hleast]
    rw [hprimary]
    cases hkind : c.current.kind with
    | number | identifier | string | trueWord | falseWord =>
      exact .inr ⟨.primary, rfl, (ample_startExpr_primary hc (by rw [hkind]; decide)).symm⟩
    | openParen =>
      have hcurrent : c.current.kind ≠ .endOfInput := by rw [hkind]; decide
      have hlength := c.ahead_advance hc hcurrent
      refine .inr ⟨.group, rfl, ?_⟩
      rw [ample_startExpr_group hc hcurrent]
      exact bind_congr_at (c := c.advance) (hwhole c.advance hc.advance (by omega)) fun _ _ _ => rfl
    | dash | plus | not => rw [hkind] at hnone; cases hnone
    | _ => exact .inl ⟨rfl, rfl⟩

theorem call_eq (hwhole : Reads whole bound) (hc : c.Ends) (hbound : c.ahead.length ≤ bound)
    (hfuel : c.ahead.length ≤ fuel)
    (hfirst : atLeastInteger c = true ∨ prefixOperator c.current.kind = none) :
    call whole fuel c = exprAbove .unary c := by
  unfold call
  rcases primary_eq hwhole hc hbound hfirst with ⟨hstart, hprimary⟩ | ⟨rule, hstart, hprimary⟩
  · rw [exprAbove_of_start_none hc hstart]
    exact bind_congr_at (y := fail "expected an expression") (g := pure) hprimary
      fun _ _ hok => by cases hok
  · have hone := steady_startExpr hc (ne_end_of_start hstart) (exprsSettleBehind c) rule
    rw [exprAbove_of_start hc hstart]
    refine bind_congr_at hprimary fun left c' hok => ?_
    obtain ⟨hc', hlength⟩ := ends_of_ample hc hone (by omega) hok
    exact calls_eq hwhole hc' (by omega) (by omega) left

/-- How the table sees a prefix operator. -/
theorem start_of_prefixOperator {kind : TokenKind} {op : UnaryOp}
    (h : prefixOperator kind = some op) : Grammar.standard.start kind = some .operator ∧
      UnaryOp.ofKind kind = op ∧ (op = .minus → kind = .dash) := by
  cases kind <;> cases h <;> exact ⟨rfl, rfl, by decide⟩

theorem unary_eq (hwhole : Reads whole bound) (hc : c.Ends) (hbound : c.ahead.length ≤ bound)
    (hfuel : c.ahead.length < fuel) : unary whole fuel c = exprAbove .unary c := by
  induction fuel generalizing c with
  | zero => omega
  | succ fuel ih =>
    simp only [unary]
    change (if atLeastInteger c then _ else match prefixOperator c.current.kind with
      | some op => _
      | none => _ : Parse Expr) c = _
    split
    · next hleast => exact call_eq hwhole hc hbound (by omega) (.inl hleast)
    · next hleast =>
      cases hop : prefixOperator c.current.kind with
      | none => exact call_eq hwhole hc hbound (by omega) (.inr hop)
      | some op =>
        obtain ⟨hstart, hofKind, hminus⟩ := start_of_prefixOperator hop
        have hcurrent := ne_end_of_start hstart
        have hlength := c.ahead_advance hc hcurrent
        have hnot : ¬ (UnaryOp.ofKind c.current.kind = .minus && atLeastMagnitude c.advance) := by
          intro hboth
          obtain ⟨hop', hmagnitude⟩ := Bool.and_eq_true_iff.mp hboth
          have hdash := hminus (hofKind ▸ of_decide_eq_true hop')
          exact hleast (by rw [atLeastInteger, hdash, hmagnitude]; rfl)
        have hexpr : exprAbove .unary c = (do
            let operator ← next
            let operand ← exprAbove .unary
            extension .unary (.unary (.ofKind operator.kind) operand
              (operator.span.join operand.span))) c := by
          rw [exprAbove_of_start hc hstart, bind_congr_at (g := extension .unary)
            (ample_startExpr_operator hc hcurrent hnot) fun _ _ _ => rfl]
          simp only [bind_assoc, pure_bind]
        rw [hexpr]
        change (unary whole fuel >>= fun operand => _ : Parse Expr) c.advance =
          (exprAbove .unary >>= fun operand => _ : Parse Expr) c.advance
        refine bind_congr_at (ih hc.advance (by omega) (by omega)) fun operand c' hok => ?_
        obtain ⟨hc', -⟩ := ends_of_exprAbove hc.advance hok
        -- the operand is above unary operators, so nothing is left to extend what it became part of
        rw [extension_of_stopped hc' (stopped_of_exprAbove hok), hofKind]
        rfl

/-! ## All levels -/

/-- Every level reads the expressions above the precedence before it. -/
theorem levels_eq (hwhole : Reads whole bound) (hc : c.Ends) (hbound : c.ahead.length ≤ bound)
    (hfuel : c.ahead.length < fuel) :
    multiplicative whole fuel c = exprAbove .additive c ∧
      additive whole fuel c = exprAbove .relational c ∧
      comparison whole fuel c = exprAbove .equality c ∧
      equality whole fuel c = exprAbove .lowest c := by
  have hmultiplicative : ∀ c', c'.Ends → c'.ahead.length ≤ c.ahead.length →
      multiplicative whole fuel c' = exprAbove .additive c' := fun c' hc' hle =>
    level_eq .multiplicative hc' (by omega) fun d hd hle' => by
      rw [exprAbove_multiplicative hd]
      exact unary_eq hwhole hd (by omega) (by omega)
  have hadditive : ∀ c', c'.Ends → c'.ahead.length ≤ c.ahead.length →
      additive whole fuel c' = exprAbove .relational c' := fun c' hc' hle =>
    level_eq .additive hc' (by omega) fun d hd hle' => hmultiplicative d hd (by omega)
  have hcomparison : ∀ c', c'.Ends → c'.ahead.length ≤ c.ahead.length →
      comparison whole fuel c' = exprAbove .equality c' := fun c' hc' hle =>
    level_eq .comparison hc' (by omega) fun d hd hle' => hadditive d hd (by omega)
  have hequality : equality whole fuel c = exprAbove .lowest c :=
    level_eq .equality hc (by omega) hcomparison
  exact ⟨hmultiplicative c hc (Nat.le_refl _), hadditive c hc (Nat.le_refl _),
    hcomparison c hc (Nat.le_refl _), hequality⟩

/-- The knot is tied: whole expressions are read. -/
theorem reads_expression : ∀ fuel, Reads (expression (fuel + 1)) fuel
  | 0 => fun c hc hlt => by omega
  | fuel + 1 => fun c hc hlt => by
    have hlevels := levels_eq (reads_expression fuel) hc (by omega) hlt
    exact hlevels.2.2.2

end Layered

/-! ## Every place in every list of tokens -/

namespace Cursor

/-- The cursor `n` tokens on, whatever these tokens are; at most at the last one. -/
def forward : (n : Nat) → Cursor → Cursor
  | 0, c => c
  | n + 1, c =>
    match c.ahead with
    | [] => c
    | t :: ts => forward n ⟨c.current :: c.before, t, ts⟩

theorem ends_forward {c : Cursor} (hc : c.Ends) (n : Nat) : (c.forward n).Ends := by
  induction n generalizing c with
  | zero => exact hc
  | succ n ih =>
    unfold forward
    split
    · exact hc
    · next t ts hahead =>
      apply ih
      unfold Ends at hc ⊢
      rw [hahead] at hc
      simpa only [List.getLastD_cons] using hc

end Cursor

/-- **Precedence climbing is the layered grammar.**  At every place of every list of tokens, with
any fuel from the measure of the tokens left on, an expression is parsed as the level next to its
precedence parses it, and never fails for want of fuel. -/
theorem expr_eq_layered (tokens : List Token) (position extra : Nat) :
    let c := (Cursor.ofTokens tokens).forward position
    let fuel := c.fuel + extra
    let whole := Layered.expression fuel
    Parse.expr .standard fuel .lowest c = Layered.equality whole fuel c ∧
      Parse.expr .standard fuel .equality c = Layered.comparison whole fuel c ∧
      Parse.expr .standard fuel .relational c = Layered.additive whole fuel c ∧
      Parse.expr .standard fuel .additive c = Layered.multiplicative whole fuel c ∧
      Parse.expr .standard fuel .multiplicative c = Layered.unary whole fuel c ∧
      Parse.expr .standard fuel .unary c = Layered.unary whole fuel c ∧
      ∀ above c', Parse.expr .standard fuel above c ≠ .error .exhausted c' := by
  intro c fuel whole
  have hc : c.Ends := Cursor.ends_forward (Cursor.ends_ofTokens tokens) position
  have hfuel : 4 * c.ahead.length + 8 ≤ fuel :=
    Nat.le_trans (Parse.le_fuel c (Nat.le_refl 8)) (Nat.le_add_right _ _)
  have hexpr : ∀ above, Parse.expr .standard fuel above c = Parse.exprAbove above c :=
    fun above => (Parse.exprAbove_eq hc above (by omega)).symm
  obtain ⟨bound, hbound⟩ : ∃ bound, fuel = bound + 1 := ⟨fuel - 1, by omega⟩
  have hwhole : Layered.Reads whole bound := by
    change Layered.Reads (Layered.expression fuel) bound
    rw [hbound]
    exact Layered.reads_expression bound
  obtain ⟨hmultiplicative, hadditive, hcomparison, hequality⟩ :=
    Layered.levels_eq hwhole hc (by omega) (show c.ahead.length < fuel by omega)
  have hunary := Layered.unary_eq hwhole hc (by omega) (show c.ahead.length < fuel by omega)
  refine ⟨?_, ?_, ?_, ?_, ?_, ?_, ?_⟩
  · rw [hexpr, hequality]
  · rw [hexpr, hcomparison]
  · rw [hexpr, hadditive]
  · rw [hexpr, hmultiplicative]
  · rw [hexpr, hunary, Layered.exprAbove_multiplicative hc]
  · rw [hexpr, hunary]
  · intro above c' hexhausted
    have hadvances := Parse.advances_exprAbove hc above
    rw [← hexpr, hexhausted] at hadvances
    exact hadvances.1 rfl

end TypedImp
