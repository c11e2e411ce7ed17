import TypedImp.Proofs.Execution.Simulation
import TypedImp.Proofs.Places.Trees

/-!
# What evaluation leaves as it was

Whatever a program does, and however it ends, it leaves as many frames as there were, and the same
names in the frame of the globals.  And an error that it ends with is one of running programs, at a
span of the program; if it is a missing result, then the body of the function came to its end.

## Why frames are counted from below

A definition adds a variable to the active frame, so it leaves the names of the globals alone only
if some frame lies above theirs.  Statements are therefore held to the count `1`.  Expressions and
calls change nothing but what lies in frames of their own, which they enter and leave, and hold with
the count `0`: an initializer of a global runs with no frame above that of the globals.

* `Machine.SameOutline`: as many frames, and the same names of globals.
* `Exec.Conducts`: a computation that keeps the outline and fails with certain errors only.
* `Exec.Conducts.inFrame`: what is entered is left.
* `Program.Permits`: what evaluation may fail with, by where it comes from.
* `conductsWith`: evaluation, by induction on the fuel.
* `conductsAt`: errors of running programs.
-/

namespace TypedImp

/-! ## Outlines -/

theorem Bindings.map_fst_set (name : String) (value : Value) (b : Bindings) :
    (b.set name value).map Prod.fst = b.map Prod.fst := by
  induction b with
  | nil => rfl
  | cons entry b ih =>
    rw [Bindings.set]
    split
    · next h => rw [List.map_cons, List.map_cons, h]
    · rw [List.map_cons, List.map_cons, ih]

/-- As many frames, and the same names in the frame of the globals. -/
structure Machine.SameOutline (m m' : Machine) : Prop where
  locals : m'.frames.locals.size = m.frames.locals.size
  globals : m'.frames.globals.map Prod.fst = m.frames.globals.map Prod.fst

namespace Machine.SameOutline

theorem refl (m : Machine) : m.SameOutline m := ⟨rfl, rfl⟩

theorem trans {m m' m'' : Machine} (h : m.SameOutline m') (h' : m'.SameOutline m'') :
    m.SameOutline m'' :=
  ⟨h'.locals.trans h.locals, h'.globals.trans h.globals⟩

/-- New variables in a frame above that of the globals, or new values anywhere. -/
theorem modify (m : Machine) {change : Bindings → Bindings} {id : Nat}
    (h : 2 ≤ id ∨ ∀ b, (change b).map Prod.fst = b.map Prod.fst) :
    m.SameOutline { m with frames := m.frames.modify change id } := by
  match id with
  | 0 => exact refl m
  | 1 => exact ⟨rfl, h.resolve_left (by omega) _⟩
  | n + 2 => exact ⟨Array.size_modify .., rfl⟩

theorem bind (m : Machine) (name : String) (value : Value) (h : 1 ≤ m.frames.locals.size) :
    m.SameOutline { m with frames := m.frames.bind name value } :=
  modify m (Or.inl (by simp only [FrameStack.active]; omega))

theorem set (m : Machine) {name : String} {value : Value} {s : FrameStack}
    (h : m.frames.set? name value = some s) : m.SameOutline { m with frames := s } := by
  obtain ⟨id, -, rfl⟩ := Option.map_eq_some_iff.mp h
  exact modify m (Or.inr (Bindings.map_fst_set name value))

/-- A frame that was entered is left again. -/
theorem leave {m m' : Machine} {parent : Nat}
    (h : { m with frames := m.frames.push parent }.SameOutline m') :
    m.SameOutline { m' with frames := m'.frames.pop } := by
  refine ⟨?_, h.globals⟩
  have hsize := h.locals
  simp only [FrameStack.push, Array.size_push] at hsize
  simp only [FrameStack.pop, Array.size_pop, hsize, Nat.add_sub_cancel]

end Machine.SameOutline

/-! ## Computations -/

/-- With at least `n` frames above that of the globals, a computation keeps the outline however it
ends, and the error that it may end with has a property. -/
def Exec.Conducts {α : Type} (n : Nat) (Q : Error → Prop) (x : Exec α) : Prop :=
  ∀ m : Machine, n ≤ m.frames.locals.size →
    match x m with
    | .ok _ m' => m.SameOutline m'
    | .error stop m' => m.SameOutline m' ∧ ∀ e, stop = .fault e → Q e

namespace Exec.Conducts

variable {α β : Type} {n : Nat} {Q : Error → Prop} {x : Exec α}

theorem outline_of_ok (h : Conducts n Q x) {m m' : Machine} (hm : n ≤ m.frames.locals.size)
    {a : α} (hok : x m = .ok a m') : m.SameOutline m' := by
  have := h m hm
  rwa [hok] at this

theorem of_error (h : Conducts n Q x) {m m' : Machine} (hm : n ≤ m.frames.locals.size)
    {stop : Stop} (herror : x m = .error stop m') :
    m.SameOutline m' ∧ ∀ e, stop = .fault e → Q e := by
  have := h m hm
  rwa [herror] at this

/-- Whatever holds with fewer frames holds with more. -/
theorem mono (h : Conducts 0 Q x) : Conducts n Q x := fun m _ => h m (Nat.zero_le _)

theorem pure (a : α) : Conducts n Q (pure a : Exec α) := fun m _ => .refl m

theorem raise {cause : Cause} {span : Span} (h : Q ⟨cause, span⟩) :
    Conducts n Q (Exec.raise (α := α) cause span) := by
  refine fun m _ => ⟨.refl m, ?_⟩
  rintro _ ⟨⟩
  exact h

theorem exhausted : Conducts n Q (Exec.exhausted (α := α)) := fun m _ => ⟨.refl m, nofun⟩

/-- One computation after the other.  The second only has to conduct itself after values that the
first gives. -/
theorem bind_reached {f : α → Exec β} (hx : Conducts n Q x)
    (hf : ∀ a m m', x m = .ok a m' → Conducts n Q (f a)) : Conducts n Q (x >>= f) := by
  intro m hm
  change match EStateM.bind x f m with | .ok _ m' => _ | .error stop m' => _
  unfold EStateM.bind
  cases hxm : x m with
  | error stop m' => exact hx.of_error hm hxm
  | ok a m' =>
    have hkept := hx.outline_of_ok hm hxm
    have hrest := hf a m m' hxm m' (by rw [hkept.locals]; exact hm)
    dsimp only
    generalize f a m' = result at hrest ⊢
    cases result with
    | ok b m'' => exact hkept.trans hrest
    | error stop m'' => exact ⟨hkept.trans hrest.1, hrest.2⟩

theorem bind {f : α → Exec β} (hx : Conducts n Q x) (hf : ∀ a, Conducts n Q (f a)) :
    Conducts n Q (x >>= f) :=
  bind_reached hx fun a _ _ _ => hf a

/-- A computation in a frame of its own. -/
theorem inFrame (parent : Nat) (h : Conducts 1 Q x) : Conducts 0 Q (Exec.inFrame parent x) := by
  intro m _
  have hinner := h { m with frames := m.frames.push parent }
    (by simp only [FrameStack.push, Array.size_push]; omega)
  unfold Exec.inFrame
  generalize x { m with frames := m.frames.push parent } = result at hinner ⊢
  cases result with
  | ok a m' => exact hinner.leave
  | error stop m' => exact ⟨hinner.1.leave, hinner.2⟩

theorem bindVariable (name : String) (value : Value) : Conducts 1 Q (Exec.bind name value) :=
  fun m hm => .bind m name value hm

theorem print (values : List Value) : Conducts n Q (Exec.print values) := fun _ _ => ⟨rfl, rfl⟩

theorem lookup {name : String} {span : Span} (h : Q ⟨.unboundVariable name, span⟩) :
    Conducts n Q (Exec.lookup name span) := by
  intro m hm
  cases hget : m.frames.get? name with
  | some value =>
    rw [Exec.lookup_of_some span hget]
    exact .refl m
  | none =>
    rw [Exec.lookup_of_none span hget]
    exact raise (α := Value) h m hm

theorem assign {name : String} {value : Value} {span : Span} (h : Q ⟨.unboundVariable name, span⟩) :
    Conducts n Q (Exec.assign name value span) := by
  intro m hm
  cases hset : m.frames.set? name value with
  | some frames =>
    rw [Exec.assign_of_some span hset]
    exact .set m hset
  | none =>
    rw [Exec.assign_of_none span hset]
    exact raise (α := Unit) h m hm

theorem execBody {exec : Stmt → Exec Flow} (ss : List Stmt) (h : ∀ s ∈ ss, Conducts n Q (exec s)) :
    Conducts n Q (execBody exec ss) := by
  induction ss with
  | nil => exact pure Flow.proceed
  | cons s ss ih =>
    obtain ⟨hfirst, hrest⟩ := List.forall_mem_cons.mp h
    refine bind hfirst fun flow => ?_
    cases flow with
    | proceed => exact ih hrest
    | returned value => exact pure (Flow.returned value)

/-- A block in a frame of its own, whatever lies below. -/
theorem execBlock {exec : Stmt → Exec Flow} {block : Block Stmt}
    (h : ∀ s ∈ block.body, Conducts 1 Q (exec s)) : Conducts 0 Q (execBlock exec block) := by
  unfold TypedImp.execBlock
  split
  · exact pure Flow.proceed
  · exact fun m hm => inFrame m.frames.active (execBody block.body h) m hm

theorem bindParameters : ∀ (parameters : List Parameter) (values : List Value),
    Conducts 1 Q (bindParameters parameters values)
  | [], _ => pure ()
  | _ :: _, [] => pure ()
  | parameter :: parameters, value :: values =>
    bind (bindVariable parameter.name value) fun _ => bindParameters parameters values

theorem evalEach {eval : Expr → Exec Value} (es : List Expr)
    (h : ∀ e ∈ es, Conducts n Q (eval e)) : Conducts n Q (evalEach eval es) := by
  induction es with
  | nil => exact pure []
  | cons e es ih =>
    obtain ⟨hfirst, hrest⟩ := List.forall_mem_cons.mp h
    refine bind hfirst fun value => ?_
    exact bind (ih hrest) fun values => pure (value :: values)

end Exec.Conducts

/-! ## Causes of running programs -/

/-- The causes of a single operation.  The only other cause of running programs is a missing result,
and that takes the whole body of a function. -/
inductive Cause.Immediate : Cause → Prop
  | divisionByZero : Immediate .divisionByZero
  | unboundVariable (name : String) : Immediate (.unboundVariable name)
  | inconsistency (message : String) : Immediate (.inconsistency message)

theorem Cause.Immediate.stage {cause : Cause} (h : cause.Immediate) : cause.stage = .runtime := by
  cases h <;> rfl

theorem BinaryOp.immediate_of_evalInt {op : BinaryOp} {a b : Int32} {cause : Cause}
    (h : op.evalInt a b = .error cause) : cause.Immediate := by
  cases op with
  | div =>
    change (if b = 0 then Except.error Cause.divisionByZero else _) = _ at h
    split at h
    · cases h; exact .divisionByZero
    · cases h
  | _ => cases h

theorem BinaryOp.immediate_of_eval {op : BinaryOp} {v w : Value} {cause : Cause}
    (h : op.eval v w = .error cause) : cause.Immediate := by
  unfold BinaryOp.eval at h
  split at h
  · exact BinaryOp.immediate_of_evalInt h
  · cases h
  · split at h
    · cases h
    · cases h
    · cases h; exact .inconsistency _

namespace Exec.Conducts

variable {n : Nat} {Q : Error → Prop} {span : Span}

theorem truth (value : Value) (h : ∀ cause : Cause, cause.Immediate → Q ⟨cause, span⟩) :
    Conducts n Q (Exec.truth value span) := by
  cases value with
  | bool b => exact pure b
  | _ => exact raise (h _ (.inconsistency _))

/-- A missing result takes a body that came to its end. -/
theorem resultOf {f : FunDecl} {flow : Flow}
    (h : flow = .proceed → f.result ≠ .void → Q ⟨.missingReturn f.name, f.span⟩) :
    Conducts n Q (Exec.resultOf f flow) := by
  cases flow with
  | returned value => exact pure value
  | proceed =>
    simp only [Exec.resultOf]
    split
    · exact pure Value.void
    · next hresult => exact raise (h rfl hresult)

theorem callBuiltin (name : String) (arguments : List Value)
    (h : ∀ cause : Cause, cause.Immediate → Q ⟨cause, span⟩) :
    Conducts n Q (Exec.callBuiltin name arguments span) := by
  unfold Exec.callBuiltin
  split
  · exact bind (print arguments) fun _ => pure Value.void
  · exact raise (h _ (.inconsistency _))

theorem startValue {eval : Expr → Exec Value} {decl : VarDecl}
    (h : ∀ cause : Cause, cause.Immediate → Q ⟨cause, decl.span⟩)
    (heval : ∀ e ∈ decl.initializer, Conducts n Q (eval e)) :
    Conducts n Q (startValue eval decl) := by
  unfold TypedImp.startValue
  cases hinitial : decl.initializer with
  | some e => exact heval e hinitial
  | none =>
    dsimp only
    unfold Exec.zeroOf
    cases Value.zero? decl.type.ty with
    | some value => exact pure value
    | none => exact raise (h _ (.inconsistency _))

end Exec.Conducts

/-! ## Evaluation -/

section

open Exec (Conducts)

variable {P : Span → Prop} {F : FunDecl → Prop} {Q : Error → Prop} {program : Program}
  {fuel n : Nat}

/-- What evaluation may fail with, if `F` holds of the functions of a program and `P` of the spans
in them: any immediate cause at such a span, and a missing result of such a function whose body can
come to its end. -/
structure Program.Permits (program : Program) (P : Span → Prop) (F : FunDecl → Prop)
    (Q : Error → Prop) : Prop where
  function? : ∀ {name f}, program.function? name = some f → F f
  allSpans : ∀ {f}, F f → f.AllSpans P
  immediate : ∀ {span}, P span → ∀ cause : Cause, cause.Immediate → Q ⟨cause, span⟩
  missingReturn : ∀ {f}, F f → f.result ≠ .void → ∀ fuel m m',
    execBody (execStmt program fuel) f.body.body m = .ok .proceed m' →
    Q ⟨.missingReturn f.name, f.span⟩

/-- The four parts of evaluation with some fuel, and what they may fail with. -/
structure ConductsWith (P : Span → Prop) (F : FunDecl → Prop) (Q : Error → Prop)
    (program : Program) (fuel : Nat) : Prop where
  expr : ∀ {e : Expr}, e.AllSpans P → Conducts 0 Q (evalExpr program fuel e)
  call : ∀ {f : FunDecl}, F f → ∀ arguments, Conducts 0 Q (callFunction program fuel f arguments)
  stmt : ∀ {s : Stmt}, s.AllSpans P → Conducts 1 Q (execStmt program fuel s)
  loop : ∀ {condition : Expr} {body : Block Stmt}, condition.AllSpans P →
    (∀ s ∈ body.body, s.AllSpans P) → Conducts 0 Q (execWhile program fuel condition body)

theorem conducts_expr_succ (permits : program.Permits P F Q) (ih : ConductsWith P F Q program fuel)
    {e : Expr} (h : e.AllSpans P) : Conducts 0 Q (evalExpr program (fuel + 1) e) := by
  cases h with
  | number => exact .pure _
  | string => exact .pure _
  | bool => exact .pure _
  | name here => exact .lookup (permits.immediate here _ (.unboundVariable _))
  | @unary op operand span inner here =>
    rw [evalExpr]
    refine .bind (ih.expr inner) fun value => ?_
    cases op.eval? value with
    | some result => exact .pure result
    | none => exact .raise (permits.immediate here _ (.inconsistency _))
  | @binary op left right span first second here =>
    rw [evalExpr]
    refine .bind (ih.expr first) fun v => .bind (ih.expr second) fun w => ?_
    cases hop : op.eval v w with
    | ok result => exact .pure result
    | error cause => exact .raise (permits.immediate here _ (BinaryOp.immediate_of_eval hop))
  | @call callee arguments span called passed here =>
    rw [evalExpr]
    cases callee.named? with
    | none => exact .raise (permits.immediate here _ (.inconsistency _))
    | some named =>
      have hpassed := Conducts.evalEach arguments fun e he => ih.expr (passed e he)
      refine .bind hpassed fun values => ?_
      split
      · exact .callBuiltin named.1 values (permits.immediate here)
      · cases hf : program.function? named.1 with
        | some f => exact ih.call (permits.function? hf) values
        | none => exact .raise (permits.immediate here _ (.inconsistency _))

/-- The body of a call ends as it does on its own, in the frame that it is given. -/
theorem exists_execBody_of_inFrame {parent : Nat} {parameters : List Parameter}
    {arguments : List Value} {body : Exec Flow} {flow : Flow} {m m' : Machine}
    (h : Exec.inFrame parent (do bindParameters parameters arguments; body) m = .ok flow m') :
    ∃ m₁ m₂, body m₁ = .ok flow m₂ := by
  unfold Exec.inFrame at h
  split at h
  · next a m₂ hinner =>
    cases h
    change EStateM.bind (bindParameters parameters arguments) (fun _ => body) _ = _ at hinner
    unfold EStateM.bind at hinner
    split at hinner
    · next m₁ _ => exact ⟨m₁, m₂, hinner⟩
    · cases hinner
  · cases h

theorem conducts_call_succ (permits : program.Permits P F Q) (ih : ConductsWith P F Q program fuel)
    {f : FunDecl} (h : F f) (arguments : List Value) :
    Conducts 0 Q (callFunction program (fuel + 1) f arguments) := by
  rw [callFunction]
  refine .bind_reached (.inFrame FrameStack.globalId ?_) fun flow m m' hreached => ?_
  · exact .bind (.bindParameters f.parameters arguments) fun _ =>
      .execBody f.body.body fun s hs => ih.stmt ((permits.allSpans h).body s hs)
  · obtain ⟨m₁, m₂, hbody⟩ := exists_execBody_of_inFrame hreached
    refine .resultOf fun hproceed hresult => ?_
    rw [hproceed] at hbody
    exact permits.missingReturn h hresult fuel m₁ m₂ hbody

theorem conducts_stmt_succ (permits : program.Permits P F Q) (ih : ConductsWith P F Q program fuel)
    {s : Stmt} (h : s.AllSpans P) : Conducts 1 Q (execStmt program (fuel + 1) s) := by
  cases h with
  | call called here =>
    rw [execStmt]
    exact .bind (ih.expr called).mono fun _ => .pure Flow.proceed
  | define defined =>
    rw [execStmt]
    refine .bind (.bind ?_ fun value => .bindVariable _ value) fun _ => .pure Flow.proceed
    exact .startValue (permits.immediate defined.here) fun e he =>
      (ih.expr (defined.initial e he)).mono
  | assign assigned here =>
    rw [execStmt]
    refine .bind (ih.expr assigned).mono fun value => ?_
    exact .bind (.assign (permits.immediate here _ (.unboundVariable _))) fun _ =>
      .pure Flow.proceed
  | @ret value span returned here =>
    cases value with
    | none => exact .pure (Flow.returned Value.void)
    | some e =>
      rw [execStmt]
      exact .bind (ih.expr (returned e rfl)).mono fun v => .pure (Flow.returned v)
  | ifThenElse tested taken otherwise here =>
    rw [execStmt]
    refine .bind (ih.expr tested).mono fun value => ?_
    refine .bind (.truth value (permits.immediate tested.span)) fun b => ?_
    cases b with
    | true => exact (Conducts.execBlock fun s hs => ih.stmt (taken s hs)).mono
    | false => exact (Conducts.execBlock fun s hs => ih.stmt (otherwise s hs)).mono
  | whileDo tested repeated here =>
    rw [execStmt]
    exact (ih.loop tested repeated).mono

theorem conducts_loop_succ (permits : program.Permits P F Q) (ih : ConductsWith P F Q program fuel)
    {condition : Expr} {body : Block Stmt} (hcondition : condition.AllSpans P)
    (hbody : ∀ s ∈ body.body, s.AllSpans P) :
    Conducts 0 Q (execWhile program (fuel + 1) condition body) := by
  rw [execWhile]
  refine .bind (ih.expr hcondition) fun value => ?_
  refine .bind (.truth value (permits.immediate hcondition.span)) fun b => ?_
  cases b with
  | false => exact .pure Flow.proceed
  | true =>
    refine .bind (Conducts.execBlock fun s hs => ih.stmt (hbody s hs)) fun flow => ?_
    cases flow with
    | proceed => exact ih.loop hcondition hbody
    | returned v => exact .pure (Flow.returned v)

/-- **Evaluation keeps the outline**, and fails only with what is permitted. -/
theorem conductsWith (permits : program.Permits P F Q) (fuel : Nat) :
    ConductsWith P F Q program fuel := by
  induction fuel with
  | zero =>
    exact ⟨fun _ => .exhausted, fun _ _ => .exhausted, fun _ => .exhausted,
      fun _ _ => .exhausted⟩
  | succ fuel ih =>
    exact ⟨conducts_expr_succ permits ih, conducts_call_succ permits ih,
      conducts_stmt_succ permits ih, conducts_loop_succ permits ih⟩

/-! ## Errors of running programs -/

theorem Error.At.of_immediate {cause : Cause} (h : cause.Immediate) {span : Span} (here : P span) :
    Error.At .runtime P ⟨cause, span⟩ :=
  .runtime h.stage here

theorem conducts_startValue {eval : Expr → Exec Value} {decl : VarDecl} (h : P decl.span)
    (heval : ∀ e ∈ decl.initializer, Conducts n (Error.At .runtime P) (eval e)) :
    Conducts n (Error.At .runtime P) (startValue eval decl) :=
  .startValue (fun _ hcause => .of_immediate hcause h) heval

/-- The four parts of evaluation with some fuel, and errors of running programs. -/
structure ConductsAt (P : Span → Prop) (program : Program) (fuel : Nat) : Prop where
  expr : ∀ {e : Expr}, e.AllSpans P → Conducts 0 (Error.At .runtime P) (evalExpr program fuel e)
  call : ∀ {f : FunDecl}, f.AllSpans P → ∀ arguments,
    Conducts 0 (Error.At .runtime P) (callFunction program fuel f arguments)
  stmt : ∀ {s : Stmt}, s.AllSpans P → Conducts 1 (Error.At .runtime P) (execStmt program fuel s)
  loop : ∀ {condition : Expr} {body : Block Stmt}, condition.AllSpans P →
    (∀ s ∈ body.body, s.AllSpans P) →
    Conducts 0 (Error.At .runtime P) (execWhile program fuel condition body)

/-- Evaluation fails only with errors of running programs, at spans of the program. -/
theorem conductsAt (hprogram : program.AllSpans P) (fuel : Nat) : ConductsAt P program fuel := by
  have permits : program.Permits P (FunDecl.AllSpans P) (Error.At .runtime P) :=
    { function? := hprogram.function?
      allSpans := fun hf => hf
      immediate := fun here _ hcause => .of_immediate hcause here
      missingReturn := fun hf _ _ _ _ _ => .runtime rfl hf.here }
  have hevaluation := conductsWith permits fuel
  exact ⟨hevaluation.expr, hevaluation.call, hevaluation.stmt, hevaluation.loop⟩

end

end TypedImp
