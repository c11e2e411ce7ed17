import Mathlib.Data.Int.ModEq
import TypedImp.Proofs.Execution.Simulation

/-!
# Integer arithmetic is exact up to wrapping

Every operator on integers wraps its result to thirty-two bits.  For sums, differences, products and
signs it makes no difference when the wrapping is done: taking an integer to its residue respects
them, so an expression of any size may be computed in unbounded integers and wrapped once at the
end.  Division does not respect residues.  There every node has to be wrapped, and a division is
faulty when its right operand has been wrapped to zero.

## Three evaluators

`Expr.exact` knows no bound.  `Expr.wrapped` wraps at every node and names the place of a division
by zero.  `evalExpr` is what runs.  The last two agree on all integer expressions, and where there
is no division the first one agrees with them up to a multiple of `2 ^ 32`.

* `Expr.IsArithmetic`, `Expr.Mentions`: integer expressions and their variables.
* `Expr.exact`, `Expr.wrapped`: their values.
* `Expr.Evaluates`, `Expr.DividesByZeroAt`: which divisions are carried out.
* `evalExpr_arithmetic`: running an integer expression.
* `integers_wrap_around`: **what integer expressions evaluate to**.
-/

namespace TypedImp

/-! ## Integer expressions -/

namespace UnaryOp

/-- What a sign makes of an unbounded integer. -/
def compute : UnaryOp → Int → Int
  | minus, a => -a
  | plus, a | not, a => a

end UnaryOp

namespace BinaryOp

/-- What an operator makes of two unbounded integers; division cuts off toward zero. -/
def compute : BinaryOp → Int → Int → Int
  | add, a, b => a + b
  | sub, a, b => a - b
  | mul, a, b => a * b
  | div, a, b => a.tdiv b
  | _, _, _ => 0

end BinaryOp

/-- The integer of signed thirty-two bits with the same residue. -/
def wrap (a : Int) : Int := a.bmod Int32.size

namespace Expr

/-- Expressions that are built from integer literals and variables with signs and with some of the
operators between two operands. -/
inductive IsArithmetic (ops : List BinaryOp) : Expr → Prop
  | literal {n : Int32} {text : String} {span : Span} :
    IsArithmetic ops (.number (.int32 n) text span)
  | name {x : String} {span : Span} : IsArithmetic ops (.name x span)
  | sign {op : UnaryOp} {operand : Expr} {span : Span} (numeric : op ≠ .not)
    (inner : IsArithmetic ops operand) : IsArithmetic ops (.unary op operand span)
  | binary {op : BinaryOp} {left right : Expr} {span : Span} (allowed : op ∈ ops)
    (first : IsArithmetic ops left) (second : IsArithmetic ops right) :
    IsArithmetic ops (.binary op left right span)

/-- A name occurs in an expression. -/
inductive Mentions (x : String) : Expr → Prop
  | name {span : Span} : Mentions x (.name x span)
  | operand {op : UnaryOp} {e : Expr} {span : Span} (inner : Mentions x e) :
    Mentions x (.unary op e span)
  | left {op : BinaryOp} {l r : Expr} {span : Span} (inner : Mentions x l) :
    Mentions x (.binary op l r span)
  | right {op : BinaryOp} {l r : Expr} {span : Span} (inner : Mentions x r) :
    Mentions x (.binary op l r span)
  | callee {e : Expr} {arguments : List Expr} {span : Span} (inner : Mentions x e) :
    Mentions x (.call e arguments span)
  | argument {e a : Expr} {arguments : List Expr} {span : Span} (mem : a ∈ arguments)
    (inner : Mentions x a) : Mentions x (.call e arguments span)

/-- How many operators are nested in each other. -/
def height : Expr → Nat
  | unary _ operand _ => operand.height + 1
  | binary _ left right _ => max left.height right.height + 1
  | _ => 0

section Values

variable (env : String → Int32)

/-- The value of an integer expression in unbounded integers. -/
def exact : Expr → Int
  | number (.int32 n) _ _ => n.toInt
  | name x _ => (env x).toInt
  | unary op operand _ => op.compute operand.exact
  | binary op left right _ => op.compute left.exact right.exact
  | _ => 0

/-- The value of an integer expression that is wrapped at every node, or the place of the division
by zero that is met first. -/
def wrapped : Expr → Except Span Int
  | number (.int32 n) _ _ => .ok n.toInt
  | name x _ => .ok (env x).toInt
  | unary op operand _ => do return wrap (op.compute (← operand.wrapped))
  | binary op left right span => do
    let a ← left.wrapped
    let b ← right.wrapped
    if op = .div ∧ b = 0 then throw span else return wrap (op.compute a b)
  | _ => .ok 0

/-- In the course of evaluating an expression a part of it is evaluated: the right operand of an
operator only if the left one has a value. -/
inductive Evaluates (part : Expr) : Expr → Prop
  | self : Evaluates part part
  | operand {op : UnaryOp} {e : Expr} {span : Span} (inner : Evaluates part e) :
    Evaluates part (.unary op e span)
  | left {op : BinaryOp} {l r : Expr} {span : Span} (inner : Evaluates part l) :
    Evaluates part (.binary op l r span)
  | right {op : BinaryOp} {l r : Expr} {span : Span} {a : Int} (first : l.wrapped env = .ok a)
    (inner : Evaluates part r) : Evaluates part (.binary op l r span)

/-- The division at a place is carried out with a right operand that has the value zero. -/
def DividesByZeroAt (span : Span) (e : Expr) : Prop :=
  ∃ (l r : Expr) (a : Int), Evaluates env (.binary .div l r span) e ∧ l.wrapped env = .ok a ∧
    r.wrapped env = .ok 0

end Values

/-! ## Where divisions by zero are met -/

section

variable {env : String → Int32} {e : Expr}

theorem wrapped_unary {op : UnaryOp} {span : Span} :
    (unary op e span).wrapped env = (e.wrapped env).map fun a => wrap (op.compute a) := by
  rw [wrapped]
  cases e.wrapped env <;> rfl

theorem wrapped_binary_of_left_error {op : BinaryOp} {l r : Expr} {span place : Span}
    (h : l.wrapped env = .error place) : (binary op l r span).wrapped env = .error place := by
  rw [wrapped, h]
  rfl

theorem wrapped_binary_of_right_error {op : BinaryOp} {l r : Expr} {span place : Span} {a : Int}
    (hl : l.wrapped env = .ok a) (hr : r.wrapped env = .error place) :
    (binary op l r span).wrapped env = .error place := by
  rw [wrapped, hl, hr]
  rfl

theorem wrapped_binary_of_ok {op : BinaryOp} {l r : Expr} {span : Span} {a b : Int}
    (hl : l.wrapped env = .ok a) (hr : r.wrapped env = .ok b) :
    (binary op l r span).wrapped env =
      if op = .div ∧ b = 0 then .error span else .ok (wrap (op.compute a b)) := by
  rw [wrapped, hl, hr]
  rfl

/-- An evaluation that fails in a part fails there as a whole: nothing is evaluated behind it. -/
theorem Evaluates.wrapped_eq_error {part : Expr} {place : Span} (h : Evaluates env part e)
    (hpart : part.wrapped env = .error place) : e.wrapped env = .error place := by
  induction h with
  | self => exact hpart
  | operand _ ih => rw [wrapped_unary, ih]; rfl
  | left _ ih => exact wrapped_binary_of_left_error ih
  | right first _ ih => exact wrapped_binary_of_right_error first ih

/-- Where an evaluation fails, a division by zero is carried out. -/
theorem dividesByZeroAt_of_wrapped {place : Span} :
    ∀ {e : Expr}, e.wrapped env = .error place → e.DividesByZeroAt env place
  | .number (.int32 _) _ _, h | .number (.float32 _) _ _, h | .string .., h | .bool .., h
  | .name .., h | .call .., h => by cases h
  | .unary op operand span, h => by
    rw [wrapped_unary] at h
    cases hoperand : operand.wrapped env with
    | ok a => rw [hoperand] at h; cases h
    | error place' =>
      rw [hoperand] at h
      cases h
      obtain ⟨l, r, a, hevaluates, hl, hr⟩ := dividesByZeroAt_of_wrapped hoperand
      exact ⟨l, r, a, .operand hevaluates, hl, hr⟩
  | .binary op left right span, h => by
    cases hleft : left.wrapped env with
    | error place' =>
      rw [wrapped_binary_of_left_error hleft] at h
      cases h
      obtain ⟨l, r, a, hevaluates, hl, hr⟩ := dividesByZeroAt_of_wrapped hleft
      exact ⟨l, r, a, .left hevaluates, hl, hr⟩
    | ok a =>
      cases hright : right.wrapped env with
      | error place' =>
        rw [wrapped_binary_of_right_error hleft hright] at h
        cases h
        obtain ⟨l, r, a', hevaluates, hl, hr⟩ := dividesByZeroAt_of_wrapped hright
        exact ⟨l, r, a', .right hleft hevaluates, hl, hr⟩
      | ok b =>
        rw [wrapped_binary_of_ok hleft hright] at h
        split at h
        · next hzero =>
          cases h
          obtain ⟨rfl, rfl⟩ := hzero
          exact ⟨left, right, a, .self, hleft, hright⟩
        · cases h

/-- **Evaluation fails at the division by zero that is carried out**, and there is at most one. -/
theorem wrapped_eq_error_iff {place : Span} :
    e.wrapped env = .error place ↔ e.DividesByZeroAt env place := by
  refine ⟨dividesByZeroAt_of_wrapped, ?_⟩
  rintro ⟨l, r, a, hevaluates, hl, hr⟩
  refine hevaluates.wrapped_eq_error ?_
  rw [wrapped_binary_of_ok hl hr, if_pos ⟨rfl, rfl⟩]

end

end Expr

/-! ## What machine integers have to do with it -/

theorem wrap_toInt (n : Int32) : wrap n.toInt = n.toInt := n.toInt_bmod

theorem toInt_ofInt_eq_wrap (a : Int) : (Int32.ofInt a).toInt = wrap a := Int32.toInt_ofInt

theorem ofInt_wrap (a : Int) : Int32.ofInt (wrap a) = Int32.ofInt a := by
  rw [← Int32.toInt_inj, toInt_ofInt_eq_wrap, toInt_ofInt_eq_wrap, wrap, wrap, Int.bmod_bmod]

/-- Values of integer expressions fit thirty-two bits. -/
theorem Expr.toInt_ofInt_of_wrapped {env : String → Int32} {e : Expr} {a : Int}
    (h : e.wrapped env = .ok a) : (Int32.ofInt a).toInt = a := by
  rw [toInt_ofInt_eq_wrap]
  cases e with
  | number value =>
    cases value with
    | int32 n => cases h; exact wrap_toInt n
    | float32 => cases h; rfl
  | name x => cases h; exact wrap_toInt (env x)
  | string | bool | call => cases h; rfl
  | unary op operand =>
    rw [wrapped_unary] at h
    cases hoperand : operand.wrapped env with
    | error place => rw [hoperand] at h; cases h
    | ok b =>
      rw [hoperand] at h
      cases h
      exact Int.bmod_bmod
  | binary op l r =>
    cases hl : l.wrapped env with
    | error place => rw [wrapped_binary_of_left_error hl] at h; cases h
    | ok b =>
      cases hr : r.wrapped env with
      | error place => rw [wrapped_binary_of_right_error hl hr] at h; cases h
      | ok c =>
        rw [wrapped_binary_of_ok hl hr] at h
        split at h
        · cases h
        · cases h
          exact Int.bmod_bmod

/-- The machine integers are the residues. -/
theorem toInt_modEq_iff (n : Int32) (a : Int) :
    n.toInt ≡ a [ZMOD Int32.size] ↔ n = Int32.ofInt a := by
  rw [← Int32.toInt_inj, toInt_ofInt_eq_wrap, wrap, Int.ModEq]
  constructor
  · intro h
    rw [← Int.emod_bmod a, ← h, Int.emod_bmod, Int32.toInt_bmod]
  · intro h
    rw [h, Int.bmod_emod]

/-- A sign before a machine integer wraps once. -/
theorem UnaryOp.eval?_int32 {op : UnaryOp} (h : op ≠ .not) (n : Int32) :
    op.eval? (.int32 n) = some (.int32 (Int32.ofInt (op.compute n.toInt))) := by
  cases op with
  | not => exact absurd rfl h
  | plus => rw [compute, Int32.ofInt_toInt]; rfl
  | minus => rw [compute, Int32.ofInt_neg, Int32.ofInt_toInt]; rfl

/-- The operators on integers, and the only one with a fault. -/
def integerOps : List BinaryOp := [.add, .sub, .mul, .div]

/-- An operator between machine integers wraps once. -/
theorem BinaryOp.eval_int32 {op : BinaryOp} (h : op ∈ integerOps) (m n : Int32) :
    op.eval (.int32 m) (.int32 n) =
      if op = .div ∧ n.toInt = 0 then .error .divisionByZero
      else .ok (.int32 (Int32.ofInt (op.compute m.toInt n.toInt))) := by
  simp only [integerOps, List.mem_cons, List.not_mem_nil, or_false] at h
  rcases h with rfl | rfl | rfl | rfl
  · simp [eval, evalInt, compute, Int32.ofInt_add]
  · simp [eval, evalInt, compute, Int32.ofInt_sub]
  · simp [eval, evalInt, compute, Int32.ofInt_mul]
  · have hzero : n.toInt = 0 ↔ n = 0 := by rw [← Int32.toInt_inj]; rfl
    have hdiv : Int32.ofInt (m.toInt.tdiv n.toInt) = m / n := by
      rw [← Int32.toInt_inj, Int32.toInt_div]
      exact Int32.toInt_ofInt
    simp only [eval, evalInt, compute, hzero, hdiv, true_and]

/-! ## Running integer expressions -/

namespace Exec

variable {α β : Type} {m m' : Machine}

theorem bind_of_ok {x : Exec α} {f : α → Exec β} {a : α} (h : x m = .ok a m') :
    (x >>= f) m = f a m' := by
  change EStateM.bind x f m = _
  rw [EStateM.bind, h]

theorem bind_of_error {x : Exec α} {f : α → Exec β} {stop : Stop} (h : x m = .error stop m') :
    (x >>= f) m = .error stop m' := by
  change EStateM.bind x f m = _
  rw [EStateM.bind, h]

end Exec

section Running

variable {program : Program} {fuel : Nat} {m : Machine} {env : String → Int32} {e : Expr}

/-- The end of an evaluation that gives an integer, or meets a division by zero. -/
def integerEnd (m : Machine) : Except Span Int → EStateM.Result Stop Machine Value
  | .ok a => .ok (.int32 (Int32.ofInt a)) m
  | .error span => .error (.fault ⟨.divisionByZero, span⟩) m

/-- **Integer expressions are evaluated node by node**, each node wrapped, and change nothing. -/
theorem evalExpr_arithmetic (program : Program) (h : e.IsArithmetic integerOps)
    (holds : ∀ x, e.Mentions x → m.frames.get? x = some (.int32 (env x)))
    (enough : e.height < fuel) :
    evalExpr program fuel e m = integerEnd m (e.wrapped env) := by
  induction h generalizing fuel with
  | @literal n text span =>
    obtain ⟨fuel, rfl⟩ : ∃ k, fuel = k + 1 := ⟨fuel - 1, by omega⟩
    rw [evalExpr, Expr.wrapped, integerEnd, Int32.ofInt_toInt]
    rfl
  | @name x span =>
    obtain ⟨fuel, rfl⟩ : ∃ k, fuel = k + 1 := ⟨fuel - 1, by omega⟩
    rw [evalExpr, Exec.lookup_of_some span (holds x .name), Expr.wrapped, integerEnd,
      Int32.ofInt_toInt]
  | @sign op operand span numeric _ ih =>
    rw [Expr.height] at enough
    obtain ⟨fuel, rfl⟩ : ∃ k, fuel = k + 1 := ⟨fuel - 1, by omega⟩
    have hinner := ih (fun x hx => holds x (.operand hx)) (Nat.lt_of_succ_lt_succ enough)
    rw [evalExpr, Expr.wrapped_unary]
    cases hvalue : operand.wrapped env with
    | error place =>
      rw [hvalue] at hinner
      exact Exec.bind_of_error hinner
    | ok a =>
      rw [hvalue] at hinner
      rw [Exec.bind_of_ok hinner, UnaryOp.eval?_int32 numeric, Expr.toInt_ofInt_of_wrapped hvalue]
      simp only [Except.map, integerEnd, ofInt_wrap]
      rfl
  | @binary op l r span allowed _ _ ihLeft ihRight =>
    rw [Expr.height] at enough
    obtain ⟨fuel, rfl⟩ : ∃ k, fuel = k + 1 := ⟨fuel - 1, by omega⟩
    have hfirst := @ihLeft fuel (fun x hx => holds x (.left hx)) (by omega)
    have hsecond := @ihRight fuel (fun x hx => holds x (.right hx)) (by omega)
    rw [evalExpr]
    cases hl : l.wrapped env with
    | error place =>
      rw [hl] at hfirst
      rw [Expr.wrapped_binary_of_left_error hl]
      exact Exec.bind_of_error hfirst
    | ok a =>
      rw [hl] at hfirst
      rw [Exec.bind_of_ok hfirst]
      cases hr : r.wrapped env with
      | error place =>
        rw [hr] at hsecond
        rw [Expr.wrapped_binary_of_right_error hl hr]
        exact Exec.bind_of_error hsecond
      | ok b =>
        rw [hr] at hsecond
        rw [Exec.bind_of_ok hsecond, Expr.wrapped_binary_of_ok hl hr, BinaryOp.eval_int32 allowed,
          Expr.toInt_ofInt_of_wrapped hl, Expr.toInt_ofInt_of_wrapped hr]
        split
        · rfl
        · simp only [integerEnd, ofInt_wrap]
          rfl

end Running

/-- The operators that respect residues. -/
def ringOps : List BinaryOp := [.add, .sub, .mul]

theorem Expr.IsArithmetic.mono {ops ops' : List BinaryOp} {e : Expr} (h : e.IsArithmetic ops)
    (hsub : ops ⊆ ops') : e.IsArithmetic ops' := by
  induction h with
  | literal => exact .literal
  | name => exact .name
  | sign numeric _ ih => exact .sign numeric ih
  | binary allowed _ _ ihLeft ihRight => exact .binary (hsub allowed) ihLeft ihRight

/-- Without divisions it makes no difference when the wrapping is done. -/
theorem wrapped_eq_exact {e : Expr} {env : String → Int32} (h : e.IsArithmetic ringOps) :
    e.wrapped env = .ok (wrap (e.exact env)) := by
  induction h with
  | literal => rw [Expr.wrapped, Expr.exact, wrap_toInt]
  | name => rw [Expr.wrapped, Expr.exact, wrap_toInt]
  | @sign op operand span _ _ ih =>
    rw [Expr.wrapped_unary, ih, Expr.exact, Except.map]
    cases op with
    | minus => simp only [UnaryOp.compute, wrap, Int.bmod_neg_bmod]
    | plus | not => simp only [UnaryOp.compute, wrap, Int.bmod_bmod]
  | @binary op l r span allowed _ _ ihLeft ihRight =>
    have hdiv : op ≠ .div := by rintro rfl; revert allowed; decide
    rw [Expr.wrapped_binary_of_ok ihLeft ihRight, if_neg fun h => hdiv h.1, Expr.exact]
    simp only [ringOps, List.mem_cons, List.not_mem_nil, or_false] at allowed
    rcases allowed with rfl | rfl | rfl
    · simp only [BinaryOp.compute, wrap, ← Int.add_bmod]
    · simp only [BinaryOp.compute, wrap, ← Int.sub_bmod]
    · simp only [BinaryOp.compute, wrap, ← Int.mul_bmod]

/-- **Integer arithmetic is exact arithmetic modulo `2 ^ 32`.**  Take an integer expression whose
variables are integers.  If it has no division, evaluating it succeeds, changes nothing and gives
the one integer of signed thirty-two bits that has the same residue as the value in unbounded
integers.  With divisions, evaluating it fails where a division is carried out whose right operand
has been wrapped to zero, and nowhere else; and where there is no such division it gives the value
that is wrapped at every node. -/
theorem integers_wrap_around (program : Program) {e : Expr} {env : String → Int32} {m : Machine}
    {fuel : Nat} (holds : ∀ x, e.Mentions x → m.frames.get? x = some (.int32 (env x)))
    (enough : e.height < fuel) :
    (e.IsArithmetic ringOps → ∃ n : Int32, evalExpr program fuel e m = .ok (.int32 n) m ∧
      ∀ k : Int32, k.toInt ≡ e.exact env [ZMOD Int32.size] ↔ k = n) ∧
    (e.IsArithmetic integerOps →
      (∀ stop m', evalExpr program fuel e m = .error stop m' ↔
        m' = m ∧ ∃ span, stop = .fault ⟨.divisionByZero, span⟩ ∧ e.DividesByZeroAt env span) ∧
      ((∀ span, ¬ e.DividesByZeroAt env span) → ∃ n : Int32, e.wrapped env = .ok n.toInt ∧
        evalExpr program fuel e m = .ok (.int32 n) m)) := by
  refine ⟨fun h => ?_, fun h => ?_⟩
  · have hops : e.IsArithmetic integerOps := h.mono (by decide)
    refine ⟨Int32.ofInt (e.exact env), ?_, fun k => toInt_modEq_iff k _⟩
    rw [evalExpr_arithmetic program hops holds enough, wrapped_eq_exact h, integerEnd, ofInt_wrap]
  · have hrun := evalExpr_arithmetic program h holds enough
    constructor
    · intro stop m'
      rw [hrun]
      cases hvalue : e.wrapped env with
      | ok a =>
        constructor
        · nofun
        · rintro ⟨-, span, -, hzero⟩
          rw [Expr.wrapped_eq_error_iff.mpr hzero] at hvalue
          cases hvalue
      | error place =>
        have hplace := Expr.wrapped_eq_error_iff.mp hvalue
        constructor
        · rintro ⟨⟩
          exact ⟨rfl, place, rfl, hplace⟩
        · rintro ⟨rfl, span, rfl, hzero⟩
          rw [Expr.wrapped_eq_error_iff.mpr hzero] at hvalue
          cases hvalue
          rfl
    · intro hnever
      cases hvalue : e.wrapped env with
      | error place => exact absurd (Expr.wrapped_eq_error_iff.mp hvalue) (hnever place)
      | ok a =>
        refine ⟨Int32.ofInt a, by rw [Expr.toInt_ofInt_of_wrapped hvalue], ?_⟩
        rw [hrun, hvalue, integerEnd]

/-- The magnitude of the least integer plus one: `-2147483648 * x - x`, with the literal that is
read together with its sign, and `-1` for `x`. -/
def beyondGreatest : Expr :=
  .binary .sub
    (.binary .mul (.number (.int32 Int32.minValue) "-2147483648" .unlocated) (.name "x" .unlocated)
      .unlocated)
    (.name "x" .unlocated) .unlocated

/-- A quotient that overflows, divided by a sum that is zero: `-2147483648 / x / (x + 1)`. -/
def overdivided : Expr :=
  .binary .div
    (.binary .div (.number (.int32 Int32.minValue) "-2147483648" .unlocated) (.name "x" .unlocated)
      .unlocated)
    (.binary .add (.name "x" .unlocated) (.number (.int32 1) "1" .unlocated) .unlocated)
    ⟨.start, ⟨25, 1, 25⟩⟩

/-- A run in which the global `x` is `-1`. -/
def minusOneMachine : Machine := ⟨⟨[("x", .int32 (-1))], #[]⟩, #[]⟩

/-- The difference wraps, and the outer division fails although the inner one overflows. -/
theorem beyondGreatest_wraps :
    (∀ x, beyondGreatest.Mentions x → minusOneMachine.frames.get? x = some (.int32 (-1))) ∧
    (∀ x, overdivided.Mentions x → minusOneMachine.frames.get? x = some (.int32 (-1))) ∧
    beyondGreatest.height < 3 ∧ overdivided.height < 3 ∧
    beyondGreatest.IsArithmetic ringOps ∧ overdivided.IsArithmetic integerOps ∧
    (∃ n : Int32,
      evalExpr .empty 3 beyondGreatest minusOneMachine = .ok (.int32 n) minusOneMachine ∧
        ∀ k : Int32, k.toInt ≡ 2147483649 [ZMOD Int32.size] ↔ k = n) ∧
    evalExpr .empty 3 overdivided minusOneMachine =
      .error (.fault ⟨.divisionByZero, ⟨.start, ⟨25, 1, 25⟩⟩⟩) minusOneMachine := by
  have hx : minusOneMachine.frames.get? "x" = some (.int32 (-1)) := by decide
  have hring : ∀ x, beyondGreatest.Mentions x →
      minusOneMachine.frames.get? x = some (.int32 ((fun _ => -1) x)) := by
    rintro x (_ | _ | ⟨_ | _ | ⟨⟨⟩⟩ | ⟨⟨⟩⟩⟩ | ⟨⟨⟩⟩)
    · exact hx
    · exact hx
  have hdiv : ∀ x, overdivided.Mentions x →
      minusOneMachine.frames.get? x = some (.int32 ((fun _ => -1) x)) := by
    rintro x (_ | _ | ⟨_ | _ | ⟨⟨⟩⟩ | ⟨⟨⟩⟩⟩ | ⟨_ | _ | ⟨⟨⟩⟩ | ⟨⟨⟩⟩⟩)
    · exact hx
    · exact hx
  have hringForm : beyondGreatest.IsArithmetic ringOps :=
    .binary (by decide) (.binary (by decide) .literal .name) .name
  have hdivForm : overdivided.IsArithmetic integerOps :=
    .binary (by decide) (.binary (by decide) .literal .name) (.binary (by decide) .name .literal)
  have hzero : overdivided.DividesByZeroAt (fun _ => -1) ⟨.start, ⟨25, 1, 25⟩⟩ :=
    ⟨_, _, Int32.minValue.toInt, .self, by decide, by decide⟩
  refine ⟨hring, hdiv, by decide, by decide, hringForm, hdivForm, ?_, ?_⟩
  · exact (@integers_wrap_around .empty _ _ _ 3 hring (by decide)).1 hringForm
  · exact (((@integers_wrap_around .empty _ _ _ 3 hdiv (by decide)).2 hdivForm).1 _ _).mpr
      ⟨rfl, _, rfl, hzero⟩

end TypedImp
