import TypedImp.Proofs.Execution.Events

/-!
# Runs that follow one another

Evaluation touches its state through a handful of operations: it looks a variable up, sets it, binds
one, prints, and enters and leaves frames.  A relation between machines that all of these respect is
respected by whole runs.  That is one induction over evaluation, done here once.

## What is left open

The run on the left keeps a record and the run on the right does not, so the equality of machines
already says that the record does not matter.  The two runs may also have different fuel: with less
fuel on the left, the left run may end for want of it, and otherwise the two agree.  Both come from
the same theorem, and so does everything that compares two runs on different machines.

* `Simulation`: relations that the operations respect, counting the frames entered.
* `Agree`, `Follows`: how two ends of a computation, and two computations, correspond.
* `Simulation.followsAt`: evaluation follows evaluation.
* `Machine.record_eq_run`: recording changes nothing.
* `Simulation.callFunction`: calls on related machines.
* `callFunction_mono`: a call that ends does so with more fuel as well, and in the same way.
-/

namespace TypedImp

/-! ## The operations -/

namespace Exec

variable {m : Machine} {name : String} {value : Value}

theorem get_bind {α : Type} (f : Machine → Exec α) (m : Machine) : (get >>= f) m = f m m := rfl

theorem lookup_of_some (span : Span) (h : m.frames.get? name = some value) :
    lookup name span m = .ok value m := by
  rw [lookup, get_bind, h]
  rfl

theorem lookup_of_none (span : Span) (h : m.frames.get? name = none) :
    lookup name span m = .error (.fault ⟨.unboundVariable name, span⟩) m := by
  rw [lookup, get_bind, h]
  rfl

theorem assign_of_some (span : Span) {s : FrameStack} (h : m.frames.set? name value = some s) :
    assign name value span m = .ok () { m with frames := s } := by
  rw [assign, get_bind, h]
  rfl

theorem assign_of_none (span : Span) (h : m.frames.set? name value = none) :
    assign name value span m = .error (.fault ⟨.unboundVariable name, span⟩) m := by
  rw [assign, get_bind, h]
  rfl

end Exec

namespace Logged

variable {r : Record} {name : String} {value : Value}

theorem assign_of_some (span : Span) {s : FrameStack}
    (h : r.machine.frames.set? name value = some s) :
    assign name value span r =
      .ok () (r.perform (.set name value) fun _ => s) := by
  change EStateM.bind (lift (Exec.assign name value span)) _ r = _
  unfold EStateM.bind lift
  rw [Exec.assign_of_some span h]
  rfl

theorem assign_of_none (span : Span) (h : r.machine.frames.set? name value = none) :
    assign name value span r = .error (.fault ⟨.unboundVariable name, span⟩) r := by
  change EStateM.bind (lift (Exec.assign name value span)) _ r = _
  unfold EStateM.bind lift
  rw [Exec.assign_of_none span h]

end Logged

/-- A relation between machines that every operation of evaluation respects.  The number counts the
frames that were entered and not left yet; where there are none, nothing happens but calls. -/
structure Simulation (Rel : Nat → Machine → Machine → Prop) : Prop where
  get? : ∀ {n m m'}, Rel (n + 1) m m' → ∀ name, m.frames.get? name = m'.frames.get? name
  set? : ∀ {n m m'}, Rel (n + 1) m m' → ∀ name value,
    (m.frames.set? name value = none ∧ m'.frames.set? name value = none) ∨
      ∃ s s', m.frames.set? name value = some s ∧ m'.frames.set? name value = some s' ∧
        Rel (n + 1) { m with frames := s } { m' with frames := s' }
  bind : ∀ {n m m'}, Rel (n + 1) m m' → ∀ name value,
    Rel (n + 1) { m with frames := m.frames.bind name value }
      { m' with frames := m'.frames.bind name value }
  print : ∀ {n m m'}, Rel (n + 1) m m' → ∀ lines : List String,
    Rel (n + 1) { m with output := m.output ++ lines } { m' with output := m'.output ++ lines }
  call : ∀ {n m m'}, Rel n m m' →
    Rel (n + 1) { m with frames := m.frames.push FrameStack.globalId }
      { m' with frames := m'.frames.push FrameStack.globalId }
  block : ∀ {n m m'}, Rel (n + 1) m m' →
    Rel (n + 2) { m with frames := m.frames.push m.frames.active }
      { m' with frames := m'.frames.push m'.frames.active }
  leave : ∀ {n m m'}, Rel (n + 1) m m' →
    Rel n { m with frames := m.frames.pop } { m' with frames := m'.frames.pop }

/-- Two ends of a computation correspond: they are the same up to related machines, or, where that
is allowed, the first came about for want of fuel. -/
inductive Agree (slack : Prop) (R : Machine → Machine → Prop) {α : Type} :
    EStateM.Result Stop Machine α → EStateM.Result Stop Machine α → Prop
  | ok {a : α} {m m' : Machine} (related : R m m') : Agree slack R (.ok a m) (.ok a m')
  | error {stop : Stop} {m m' : Machine} (related : R m m') :
    Agree slack R (.error stop m) (.error stop m')
  | spent {m : Machine} {result : EStateM.Result Stop Machine α} (allowed : slack) :
    Agree slack R (.error .exhausted m) result

/-- The end of a computation without the record. -/
def Logged.forget {α : Type} : EStateM.Result Stop Record α → EStateM.Result Stop Machine α
  | .ok a r => .ok a r.machine
  | .error stop r => .error stop r.machine

/-- One computation follows another from related machines on. -/
def Follows (slack : Prop) (Rel : Nat → Machine → Machine → Prop) (n : Nat) {α : Type}
    (x : Logged α) (y : Exec α) : Prop :=
  ∀ r m, Rel n r.machine m → Agree slack (Rel n) (Logged.forget (x r)) (y m)

namespace Follows

variable {slack : Prop} {Rel : Nat → Machine → Machine → Prop} {n : Nat} {α β : Type}

/-! ## Computations built from parts -/

theorem pure (a : α) : Follows slack Rel n (pure a) (pure a) :=
  fun _ _ h => .ok h

theorem raise (cause : Cause) (span : Span) :
    Follows slack Rel n (α := α) (Logged.lift (Exec.raise cause span)) (Exec.raise cause span) :=
  fun _ _ h => .error h

theorem bind {x : Logged α} {y : Exec α} {f : α → Logged β} {g : α → Exec β}
    (hx : Follows slack Rel n x y) (hf : ∀ a, Follows slack Rel n (f a) (g a)) :
    Follows slack Rel n (x >>= f) (y >>= g) := by
  intro r m h
  have hxy := hx r m h
  change Agree slack (Rel n) (Logged.forget (EStateM.bind x f r)) (EStateM.bind y g m)
  unfold EStateM.bind
  cases hxr : x r with
  | ok a r' =>
    cases hym : y m with
    | ok b m' =>
      rw [hxr, hym] at hxy
      cases hxy with
      | ok h' => exact hf a r' m' h'
    | error stop m' =>
      rw [hxr, hym] at hxy
      cases hxy
  | error stop r' =>
    cases hym : y m with
    | ok b m' =>
      rw [hxr, hym] at hxy
      cases hxy with
      | spent allowed => exact .spent allowed
    | error stop' m' =>
      rw [hxr, hym] at hxy
      cases hxy with
      | error h' => exact .error h'
      | spent allowed => exact .spent allowed

/-- A computation in a new frame, which both sides enter and leave. -/
theorem inFrame {entering : Event} (parent parent' : Machine → Nat) {x : Logged α} {y : Exec α}
    (enter : ∀ {m m'}, Rel n m m' → Rel (n + 1) { m with frames := m.frames.push (parent m) }
      { m' with frames := m'.frames.push (parent' m') })
    (leave : ∀ {m m'}, Rel (n + 1) m m' →
      Rel n { m with frames := m.frames.pop } { m' with frames := m'.frames.pop })
    (hxy : Follows slack Rel (n + 1) x y) (r : Record) (m : Machine) (h : Rel n r.machine m) :
    Agree slack (Rel n) (Logged.forget (Logged.inFrame entering (parent r.machine) x r))
      (Exec.inFrame (parent' m) y m) := by
  have hinner := hxy (r.perform entering fun s => s.push (parent r.machine))
    { m with frames := m.frames.push (parent' m) } (enter h)
  unfold Logged.inFrame Exec.inFrame
  generalize x (r.perform entering fun s => s.push (parent r.machine)) = left at hinner ⊢
  generalize y { m with frames := m.frames.push (parent' m) } = right at hinner ⊢
  cases left with
  | ok a r' =>
    cases hinner with
    | ok h' => exact .ok (leave h')
  | error stop r' =>
    cases hinner with
    | error h' => exact .error (leave h')
    | spent allowed => exact .spent allowed

theorem execBody {exec : Stmt → Logged Flow} {exec' : Stmt → Exec Flow}
    (h : ∀ s, Follows slack Rel n (exec s) (exec' s)) (ss : List Stmt) :
    Follows slack Rel n (Logged.execBody exec ss) (TypedImp.execBody exec' ss) := by
  induction ss with
  | nil => exact Follows.pure Flow.proceed
  | cons s ss ih =>
    refine Follows.bind (h s) fun flow => ?_
    cases flow with
    | proceed => exact ih
    | returned value => exact Follows.pure (Flow.returned value)

theorem evalEach {eval : Expr → Logged Value} {eval' : Expr → Exec Value}
    (h : ∀ e, Follows slack Rel n (eval e) (eval' e)) (es : List Expr) :
    Follows slack Rel n (Logged.evalEach eval es) (TypedImp.evalEach eval' es) := by
  induction es with
  | nil => exact Follows.pure []
  | cons e es ih =>
    refine Follows.bind (h e) fun value => ?_
    refine Follows.bind ih fun values => ?_
    exact Follows.pure (value :: values)

theorem truth (value : Value) (span : Span) :
    Follows slack Rel n (Logged.lift (Exec.truth value span)) (Exec.truth value span) := by
  cases value with
  | bool b => exact Follows.pure b
  | _ => exact Follows.raise _ span

theorem resultOf (f : FunDecl) (flow : Flow) :
    Follows slack Rel n (Logged.lift (Exec.resultOf f flow)) (Exec.resultOf f flow) := by
  cases flow with
  | returned value => exact Follows.pure value
  | proceed =>
    simp only [Exec.resultOf]
    split
    · exact Follows.pure Value.void
    · exact Follows.raise _ f.span

end Follows

/-! ## Evaluation -/

namespace Simulation

variable {Rel : Nat → Machine → Machine → Prop} (sim : Simulation Rel) {slack : Prop} {n : Nat}
include sim

theorem lookup (name : String) (span : Span) :
    Follows slack Rel (n + 1) (Logged.lift (Exec.lookup name span)) (Exec.lookup name span) := by
  intro r m h
  have hget := sim.get? h name
  unfold Logged.lift
  cases hm : m.frames.get? name with
  | some value =>
    rw [Exec.lookup_of_some span (hget.trans hm), Exec.lookup_of_some span hm]
    exact .ok h
  | none =>
    rw [Exec.lookup_of_none span (hget.trans hm), Exec.lookup_of_none span hm]
    exact .error h

theorem assign (name : String) (value : Value) (span : Span) :
    Follows slack Rel (n + 1) (Logged.assign name value span) (Exec.assign name value span) := by
  intro r m h
  rcases sim.set? h name value with ⟨hleft, hright⟩ | ⟨s, s', hleft, hright, h'⟩
  · rw [Logged.assign_of_none span hleft, Exec.assign_of_none span hright]
    exact .error h
  · rw [Logged.assign_of_some span hleft, Exec.assign_of_some span hright]
    exact .ok h'

theorem bindVariable (declaration : Binding) (value : Value) :
    Follows slack Rel (n + 1) (Logged.bind declaration value) (Exec.bind declaration.name value) :=
  fun _ _ h => .ok (sim.bind h declaration.name value)

theorem callBuiltin (name : String) (arguments : List Value) (span : Span) :
    Follows slack Rel (n + 1) (Logged.lift (Exec.callBuiltin name arguments span))
      (Exec.callBuiltin name arguments span) := by
  unfold Exec.callBuiltin
  split
  · exact fun _ _ h => .ok (sim.print h (arguments.map Value.text))
  · exact Follows.raise _ span

theorem bindParameters : ∀ (parameters : List Parameter) (values : List Value),
    Follows slack Rel (n + 1) (Logged.bindParameters parameters values)
      (TypedImp.bindParameters parameters values)
  | [], _ => Follows.pure ()
  | _ :: _, [] => Follows.pure ()
  | parameter :: parameters, value :: values =>
    Follows.bind (sim.bindVariable parameter.binding value) fun _ =>
      bindParameters parameters values

section Lists

variable {exec : Stmt → Logged Flow} {exec' : Stmt → Exec Flow}
  {eval : Expr → Logged Value} {eval' : Expr → Exec Value}

theorem execBlock (h : ∀ n s, Follows slack Rel (n + 1) (exec s) (exec' s)) (block : Block Stmt) :
    Follows slack Rel (n + 1) (Logged.execBlock exec block) (TypedImp.execBlock exec' block) := by
  unfold Logged.execBlock TypedImp.execBlock
  split
  · exact Follows.pure Flow.proceed
  · exact Follows.inFrame (fun m => m.frames.active) (fun m => m.frames.active) sim.block sim.leave
      (Follows.execBody (h (n + 1)) block.body)

theorem define (h : ∀ e, Follows slack Rel (n + 1) (eval e) (eval' e)) (decl : VarDecl) :
    Follows slack Rel (n + 1) (Logged.define eval decl) (TypedImp.define eval' decl) := by
  refine Follows.bind ?_ fun value => sim.bindVariable decl.binding value
  unfold Logged.startValue startValue
  cases decl.initializer with
  | some e => exact h e
  | none =>
    unfold Exec.zeroOf
    cases Value.zero? decl.type.ty with
    | some value => exact Follows.pure value
    | none => exact Follows.raise _ decl.span

end Lists

end Simulation

/-- The four parts of evaluation with some fuel, each following its counterpart. -/
structure FollowsAt (slack : Prop) (Rel : Nat → Machine → Machine → Prop) (program : Program)
    (fuel fuel' : Nat) : Prop where
  expr : ∀ n e, Follows slack Rel (n + 1) (Logged.evalExpr program fuel e)
    (evalExpr program fuel' e)
  call : ∀ n f arguments, Follows slack Rel n (Logged.callFunction program fuel f arguments)
    (callFunction program fuel' f arguments)
  stmt : ∀ n s, Follows slack Rel (n + 1) (Logged.execStmt program fuel s)
    (execStmt program fuel' s)
  loop : ∀ n condition body, Follows slack Rel (n + 1)
    (Logged.execWhile program fuel condition body) (execWhile program fuel' condition body)

namespace Simulation

variable {Rel : Nat → Machine → Machine → Prop} (sim : Simulation Rel) {slack : Prop}
  {program : Program} {fuel fuel' : Nat}
include sim

theorem expr_succ (ih : FollowsAt slack Rel program fuel fuel') (n : Nat) (e : Expr) :
    Follows slack Rel (n + 1) (Logged.evalExpr program (fuel + 1) e)
      (evalExpr program (fuel' + 1) e) := by
  cases e with
  | number value text span => exact Follows.pure value.toValue
  | string value span => exact Follows.pure (Value.string value)
  | bool value span => exact Follows.pure (Value.bool value)
  | name name span => exact sim.lookup name span
  | unary op operand span =>
    rw [Logged.evalExpr, evalExpr]
    refine Follows.bind (ih.expr n operand) fun value => ?_
    cases op.eval? value with
    | some result => exact Follows.pure result
    | none => exact Follows.raise _ span
  | binary op left right span =>
    rw [Logged.evalExpr, evalExpr]
    refine Follows.bind (ih.expr n left) fun v => ?_
    refine Follows.bind (ih.expr n right) fun w => ?_
    cases op.eval v w with
    | ok result => exact Follows.pure result
    | error cause => exact Follows.raise cause span
  | call callee arguments span =>
    rw [Logged.evalExpr, evalExpr]
    cases callee.named? with
    | none => exact Follows.raise _ span
    | some named =>
      refine Follows.bind (Follows.evalEach (ih.expr n) arguments) fun values => ?_
      split
      · exact sim.callBuiltin named.1 values span
      · cases program.function? named.1 with
        | some f => exact ih.call (n + 1) f values
        | none => exact Follows.raise _ span

theorem call_succ (ih : FollowsAt slack Rel program fuel fuel') (n : Nat) (f : FunDecl)
    (arguments : List Value) :
    Follows slack Rel n (Logged.callFunction program (fuel + 1) f arguments)
      (callFunction program (fuel' + 1) f arguments) := by
  rw [Logged.callFunction, callFunction]
  refine Follows.bind ?_ fun flow => Follows.resultOf f flow
  refine Follows.inFrame (fun _ => FrameStack.globalId) (fun _ => FrameStack.globalId) sim.call
    sim.leave ?_
  exact Follows.bind (sim.bindParameters f.parameters arguments) fun _ =>
    Follows.execBody (ih.stmt n) f.body.body

theorem stmt_succ (ih : FollowsAt slack Rel program fuel fuel') (n : Nat) (s : Stmt) :
    Follows slack Rel (n + 1) (Logged.execStmt program (fuel + 1) s)
      (execStmt program (fuel' + 1) s) := by
  cases s with
  | call callee arguments callSpan span =>
    rw [Logged.execStmt, execStmt]
    exact Follows.bind (ih.expr n _) fun _ => Follows.pure Flow.proceed
  | define decl =>
    rw [Logged.execStmt, execStmt]
    exact Follows.bind (sim.define (ih.expr n) decl) fun _ => Follows.pure Flow.proceed
  | assign name value span =>
    rw [Logged.execStmt, execStmt]
    refine Follows.bind (ih.expr n value) fun v => ?_
    exact Follows.bind (sim.assign name v span) fun _ => Follows.pure Flow.proceed
  | ret value span =>
    cases value with
    | none => exact Follows.pure (Flow.returned Value.void)
    | some e =>
      rw [Logged.execStmt, execStmt]
      exact Follows.bind (ih.expr n e) fun v => Follows.pure (Flow.returned v)
  | ifThenElse condition thenBlock elseBlock span =>
    rw [Logged.execStmt, execStmt]
    refine Follows.bind (ih.expr n condition) fun value => ?_
    refine Follows.bind (Follows.truth value condition.span) fun b => ?_
    cases b with
    | true => exact sim.execBlock ih.stmt thenBlock
    | false => exact sim.execBlock ih.stmt elseBlock
  | whileDo condition body span =>
    rw [Logged.execStmt, execStmt]
    exact ih.loop n condition body

theorem loop_succ (ih : FollowsAt slack Rel program fuel fuel') (n : Nat) (condition : Expr)
    (body : Block Stmt) :
    Follows slack Rel (n + 1) (Logged.execWhile program (fuel + 1) condition body)
      (execWhile program (fuel' + 1) condition body) := by
  rw [Logged.execWhile, execWhile]
  refine Follows.bind (ih.expr n condition) fun value => ?_
  refine Follows.bind (Follows.truth value condition.span) fun b => ?_
  cases b with
  | false => exact Follows.pure Flow.proceed
  | true =>
    refine Follows.bind (sim.execBlock ih.stmt body) fun flow => ?_
    cases flow with
    | proceed => exact ih.loop n condition body
    | returned v => exact Follows.pure (Flow.returned v)

/-- **Evaluation follows evaluation.**  The fuel is the same on both sides, or the left side has
less of it and may run out. -/
theorem followsAt (h : fuel = fuel' ∨ slack ∧ fuel ≤ fuel') :
    FollowsAt slack Rel program fuel fuel' := by
  induction fuel generalizing fuel' with
  | zero =>
    -- the left side is out of fuel at once; so is the right side, unless it may have more
    have hspent : ∀ {α : Type} (n : Nat) (y : Exec α),
        (fuel' = 0 → y = Exec.exhausted) →
          Follows slack Rel n (Logged.lift Exec.exhausted) y := by
      intro α n y hy r m hr
      rcases h with hzero | ⟨allowed, -⟩
      · rw [hy hzero.symm]
        exact .error hr
      · exact .spent allowed
    refine ⟨fun n e => hspent (n + 1) _ ?_, fun n f arguments => hspent n _ ?_,
      fun n s => hspent (n + 1) _ ?_, fun n condition body => hspent (n + 1) _ ?_⟩
    all_goals
      rintro rfl
      rfl
  | succ fuel ih =>
    cases fuel' with
    | zero => exact absurd h (by omega)
    | succ fuel' =>
      have hrec : FollowsAt slack Rel program fuel fuel' := ih (by
        rcases h with h | ⟨allowed, h⟩
        · exact Or.inl (by omega)
        · exact Or.inr ⟨allowed, by omega⟩)
      exact ⟨sim.expr_succ hrec, sim.call_succ hrec, sim.stmt_succ hrec, sim.loop_succ hrec⟩

theorem initGlobals (h : FollowsAt slack Rel program fuel fuel') (n : Nat)
    (decls : List VarDecl) :
    Follows slack Rel (n + 1) (Logged.initGlobals program fuel decls)
      (TypedImp.initGlobals program fuel' decls) := by
  induction decls with
  | nil => exact Follows.pure ()
  | cons decl decls ih => exact Follows.bind (sim.define (h.expr n) decl) fun _ => ih

end Simulation

/-! ## Dropping the record -/

theorem Agree.eq {α : Type} {a b : EStateM.Result Stop Machine α} (h : Agree False Eq a b) :
    a = b := by
  cases h with
  | ok h => rw [h]
  | error h => rw [h]
  | spent h => exact h.elim

/-- Equality is respected by all operations. -/
theorem simulation_eq : Simulation fun _ m m' => m = m' where
  get? := fun h name => by rw [h]
  set? := fun {n m m'} h name value => by
    subst h
    cases hs : m.frames.set? name value with
    | none => exact Or.inl ⟨rfl, rfl⟩
    | some s => exact Or.inr ⟨s, s, rfl, rfl, rfl⟩
  bind := fun h name value => by rw [h]
  print := fun h lines => by rw [h]
  call := fun h => by rw [h]
  block := fun h => by rw [h]
  leave := fun h => by rw [h]

section Record

variable (program : Program) (fuel : Nat)

theorem followsAt_record : FollowsAt False (fun _ m m' => m = m') program fuel fuel :=
  simulation_eq.followsAt (Or.inl rfl)

theorem forget_evalExpr (e : Expr) (r : Record) :
    Logged.forget (Logged.evalExpr program fuel e r) = evalExpr program fuel e r.machine :=
  ((followsAt_record program fuel).expr 0 e r r.machine rfl).eq

theorem forget_callFunction (f : FunDecl) (arguments : List Value) (r : Record) :
    Logged.forget (Logged.callFunction program fuel f arguments r) =
      callFunction program fuel f arguments r.machine :=
  ((followsAt_record program fuel).call 0 f arguments r r.machine rfl).eq

theorem forget_initGlobals (decls : List VarDecl) (r : Record) :
    Logged.forget (Logged.initGlobals program fuel decls r) =
      initGlobals program fuel decls r.machine :=
  (simulation_eq.initGlobals (followsAt_record program fuel) 0 decls r r.machine rfl).eq

theorem forget_execute (f : FunDecl) (arguments : List Value) (r : Record) :
    Logged.forget (Logged.execute program fuel f arguments r) =
      Machine.execute program fuel f arguments r.machine := by
  have hfollows : Follows False (fun _ m m' => m = m') 1
      (Logged.execute program fuel f arguments) (Machine.execute program fuel f arguments) := by
    refine Follows.bind (fun r m h => ?_) fun _ => ?_
    · subst h
      exact .ok rfl
    · exact Follows.bind (simulation_eq.initGlobals (followsAt_record program fuel) 0 _) fun _ =>
        (followsAt_record program fuel).call 1 f arguments
  exact (hfollows r r.machine rfl).eq

/-- **Recording changes nothing.**  The recorded run ends as the run does, with the same machine. -/
theorem Machine.record_eq_run (name : String) (arguments : List Value) (m : Machine) :
    ((m.record program fuel name arguments).1, (m.record program fuel name arguments).2.machine) =
      m.run program fuel name arguments := by
  unfold Machine.record Machine.run
  cases entry program name arguments with
  | error error => rfl
  | ok f =>
    have h := forget_execute program fuel f arguments ⟨m, []⟩
    dsimp only at h ⊢
    rw [← h]
    cases Logged.execute program fuel f arguments ⟨m, []⟩ with
    | ok value r => rfl
    | error stop r => rfl

end Record

/-! ## Runs without a record -/

/-- Calls on related machines end in the same way, on related machines. -/
theorem Simulation.callFunction {Rel : Nat → Machine → Machine → Prop} (sim : Simulation Rel)
    {slack : Prop} {program : Program} {fuel fuel' : Nat}
    (h : fuel = fuel' ∨ slack ∧ fuel ≤ fuel') {n : Nat} {m m' : Machine} (hm : Rel n m m')
    (f : FunDecl) (arguments : List Value) :
    Agree slack (Rel n) (TypedImp.callFunction program fuel f arguments m)
      (TypedImp.callFunction program fuel' f arguments m') := by
  have hat : FollowsAt slack Rel program fuel fuel' := sim.followsAt h
  have hfollows := hat.call n f arguments ⟨m, []⟩ m' hm
  rwa [forget_callFunction] at hfollows

/-- **More fuel does not matter.**  A call that does not end for want of fuel ends in the same way
with more of it. -/
theorem callFunction_mono {program : Program} {fuel fuel' : Nat} (h : fuel ≤ fuel') (f : FunDecl)
    (arguments : List Value) (m : Machine)
    (hend : ∀ m', callFunction program fuel f arguments m ≠ .error .exhausted m') :
    callFunction program fuel' f arguments m = callFunction program fuel f arguments m := by
  have hagree : Agree True Eq (callFunction program fuel f arguments m)
      (callFunction program fuel' f arguments m) :=
    simulation_eq.callFunction (Or.inr ⟨trivial, h⟩) (n := 0) rfl f arguments
  generalize callFunction program fuel f arguments m = left at hagree hend ⊢
  generalize callFunction program fuel' f arguments m = right at hagree ⊢
  cases hagree with
  | ok hm => rw [hm]
  | error hm => rw [hm]
  | spent _ => exact absurd rfl (hend _)

end TypedImp
