import TypedImp.Proofs.Relabel.Trees

/-!
# Runs do not look at labels

Evaluation takes the name, the operator or the value of a tree apart and hands its spans on to
errors; the number of a scope it never reads, since frames are stacked and not numbered by checking.
So a program and the program with other labels run alike, step by step: they have the same frames,
print the same lines, and end with the same value or with one error at two places.

## Why the functions are found by a hypothesis

A call looks its function up by name in a list.  All that matters is that under every name the two
programs have functions that differ in labels; that one list is the other, relabeled, is one way for
this to be so, and that it is a permutation of it is another.

* `Carries.lookup`, `Carries.inFrame` and so on: the operations of a run.
* `RelabelsAt`, `relabelsAt`: evaluation, by induction on the fuel.
* `Machine.run_relabel`: whole runs.
-/

namespace TypedImp

/-! ## Operations -/

namespace Carries

variable {r : Relabeling} {α : Type}

theorem raise (cause : Cause) (span : Span) :
    Carries (Stop.relabel r) (id : α → α) (Exec.raise cause span)
      (Exec.raise cause (r.span span)) :=
  throw _

theorem exhausted : Carries (Stop.relabel r) (id : α → α) Exec.exhausted Exec.exhausted :=
  throw _

theorem lookup (name : String) (span : Span) :
    Carries (Stop.relabel r) id (Exec.lookup name span) (Exec.lookup name (r.span span)) := by
  refine get fun m => ?_
  cases m.frames.get? name with
  | some value => exact pure value
  | none => exact raise _ span

theorem assign (name : String) (value : Value) (span : Span) :
    Carries (Stop.relabel r) id (Exec.assign name value span)
      (Exec.assign name value (r.span span)) := by
  refine get fun m => ?_
  cases m.frames.set? name value with
  | some frames => exact fun _ => rfl
  | none => exact raise _ span

theorem zeroOf (t : Ty) (span : Span) :
    Carries (Stop.relabel r) id (Exec.zeroOf t span) (Exec.zeroOf t (r.span span)) := by
  unfold Exec.zeroOf
  cases Value.zero? t with
  | some value => exact pure value
  | none => exact raise _ span

theorem callBuiltin (name : String) (arguments : List Value) (span : Span) :
    Carries (Stop.relabel r) id (Exec.callBuiltin name arguments span)
      (Exec.callBuiltin name arguments (r.span span)) := by
  unfold Exec.callBuiltin
  split
  · exact plainBind (modify _) fun _ => pure _
  · exact raise _ span

theorem truth (value : Value) (span : Span) :
    Carries (Stop.relabel r) id (Exec.truth value span) (Exec.truth value (r.span span)) := by
  unfold Exec.truth
  split
  · exact pure _
  · exact raise _ span

theorem resultOf (f : FunDecl) (flow : Flow) :
    Carries (Stop.relabel r) id (Exec.resultOf f flow) (Exec.resultOf (f.relabel r) flow) := by
  cases flow with
  | returned value => exact pure value
  | proceed =>
    have hresult : (f.relabel r).result = f.result := rfl
    simp only [Exec.resultOf, hresult]
    split
    · exact pure _
    · exact raise _ f.span

/-- Frames are pushed and popped alike around computations that do the same. -/
theorem inFrame {err : Stop → Stop} {x y : Exec α} (parent : Nat) (h : Carries err id x y) :
    Carries err id (Exec.inFrame parent x) (Exec.inFrame parent y) := by
  intro m
  unfold Exec.inFrame
  rw [h]
  cases x { m with frames := m.frames.push parent } with
  | ok a m' => rfl
  | error stop m' => rfl

end Carries

/-! ## Statements and expressions in order -/

section Lists

variable {r : Relabeling} {exec exec' : Stmt → Exec Flow} {eval eval' : Expr → Exec Value}

theorem execBody_relabel
    (h : ∀ s, Carries (Stop.relabel r) id (exec s) (exec' (s.relabel r))) (ss : List Stmt) :
    Carries (Stop.relabel r) id (execBody exec ss) (execBody exec' (relabelBody r ss)) := by
  induction ss with
  | nil =>
    rw [relabelBody]
    exact .pure _
  | cons s ss ih =>
    rw [relabelBody]
    refine (h s).plainBind fun flow => ?_
    cases flow with
    | proceed => exact ih
    | returned value => exact .pure _

theorem execBlock_relabel
    (h : ∀ s, Carries (Stop.relabel r) id (exec s) (exec' (s.relabel r))) (b : Block Stmt) :
    Carries (Stop.relabel r) id (execBlock exec b) (execBlock exec' (b.relabel r)) := by
  obtain ⟨body, scope, span⟩ := b
  rw [Block.relabel]
  cases body with
  | nil =>
    rw [relabelBody]
    exact .pure _
  | cons s ss =>
    refine .get fun m => .inFrame _ ?_
    exact execBody_relabel h (s :: ss)

theorem bindParameters_relabel : ∀ (parameters : List Parameter) (arguments : List Value),
    Carries (Stop.relabel r) id (bindParameters parameters arguments)
      (bindParameters (parameters.map (Parameter.relabel r)) arguments)
  | [], _ => .pure _
  | _ :: _, [] => .pure _
  | _ :: parameters, _ :: arguments =>
    .plainBind (.modify _) fun _ => bindParameters_relabel parameters arguments

theorem evalEach_relabel
    (h : ∀ e, Carries (Stop.relabel r) id (eval e) (eval' (e.relabel r))) (es : List Expr) :
    Carries (Stop.relabel r) id (evalEach eval es) (evalEach eval' (Expr.relabelAll r es)) := by
  induction es with
  | nil => exact .pure _
  | cons e es ih => exact (h e).plainBind fun _ => ih.plainBind fun _ => .pure _

theorem define_relabel
    (h : ∀ e, Carries (Stop.relabel r) id (eval e) (eval' (e.relabel r))) (decl : VarDecl) :
    Carries (Stop.relabel r) id (define eval decl) (define eval' (decl.relabel r)) := by
  refine .plainBind ?_ fun _ => .modify _
  unfold startValue VarDecl.relabel
  cases decl.initializer with
  | some e => exact h e
  | none => exact .zeroOf _ _

end Lists

/-! ## Evaluation

The induction is on the fuel, for all four parts of the recursion at once.  A step of evaluation
calls the others with one unit less, on the parts of its tree. -/

section Evaluation

variable {r : Relabeling} {p p' : Program} {fuel : Nat}

/-- With some fuel, the first program and the second one with other labels are evaluated alike. -/
structure RelabelsAt (r : Relabeling) (p p' : Program) (fuel : Nat) : Prop where
  expr : ∀ e,
    Carries (Stop.relabel r) id (evalExpr p fuel e) (evalExpr p' fuel (e.relabel r))
  call : ∀ f arguments, Carries (Stop.relabel r) id (callFunction p fuel f arguments)
    (callFunction p' fuel (f.relabel r) arguments)
  stmt : ∀ s,
    Carries (Stop.relabel r) id (execStmt p fuel s) (execStmt p' fuel (s.relabel r))
  loop : ∀ condition body, Carries (Stop.relabel r) id (execWhile p fuel condition body)
    (execWhile p' fuel (condition.relabel r) (body.relabel r))

namespace RelabelsAt

theorem expr_succ (h : RelabelsAt r p p' fuel)
    (hfunctions : ∀ name, p'.function? name = (p.function? name).map (FunDecl.relabel r))
    (e : Expr) :
    Carries (Stop.relabel r) id (evalExpr p (fuel + 1) e)
      (evalExpr p' (fuel + 1) (e.relabel r)) := by
  cases e with
  | number value text span => simpa only [Expr.relabel, evalExpr] using .pure _
  | string value span => simpa only [Expr.relabel, evalExpr] using .pure _
  | bool value span => simpa only [Expr.relabel, evalExpr] using .pure _
  | name n span => simpa only [Expr.relabel, evalExpr] using .lookup n span
  | unary op operand span =>
    simp only [Expr.relabel, evalExpr]
    refine (h.expr operand).plainBind fun value => ?_
    cases op.eval? value with
    | some result => exact .pure _
    | none => exact .raise _ span
  | binary op left right span =>
    simp only [Expr.relabel, evalExpr]
    refine (h.expr left).plainBind fun v => (h.expr right).plainBind fun w => ?_
    cases op.eval v w with
    | ok result => exact .pure _
    | error cause => exact .raise _ span
  | call callee arguments span =>
    simp only [Expr.relabel, evalExpr, Expr.named?_relabel]
    cases callee.named? with
    | none => exact .raise _ span
    | some named =>
      simp only [Option.map_some]
      refine (evalEach_relabel h.expr arguments).plainBind fun values => ?_
      split
      · exact .callBuiltin _ values span
      · rw [hfunctions]
        cases p.function? named.1 with
        | some f => exact h.call f values
        | none => exact .raise _ span

theorem call_succ (h : RelabelsAt r p p' fuel) (f : FunDecl) (arguments : List Value) :
    Carries (Stop.relabel r) id (callFunction p (fuel + 1) f arguments)
      (callFunction p' (fuel + 1) (f.relabel r) arguments) := by
  simp only [callFunction]
  refine (Carries.inFrame _ ?_).plainBind fun flow => .resultOf f flow
  refine (bindParameters_relabel f.parameters arguments).plainBind fun _ => ?_
  rw [FunDecl.relabel, Block.body_relabel]
  exact execBody_relabel h.stmt f.body.body

theorem stmt_succ (h : RelabelsAt r p p' fuel) (s : Stmt) :
    Carries (Stop.relabel r) id (execStmt p (fuel + 1) s)
      (execStmt p' (fuel + 1) (s.relabel r)) := by
  cases s with
  | call callee arguments callSpan span =>
    simp only [Stmt.relabel, execStmt]
    exact (h.expr (.call callee arguments callSpan)).plainBind fun _ => .pure _
  | define decl =>
    simp only [Stmt.relabel, execStmt]
    exact (define_relabel h.expr decl).plainBind fun _ => .pure _
  | assign name value span =>
    simp only [Stmt.relabel, execStmt]
    exact (h.expr value).plainBind fun v => (Carries.assign name v span).plainBind fun _ => .pure _
  | ret value span =>
    cases value with
    | none => simpa only [Stmt.relabel, Option.map_none, execStmt] using .pure _
    | some e =>
      simp only [Stmt.relabel, Option.map_some, execStmt]
      exact (h.expr e).plainBind fun _ => .pure _
  | ifThenElse condition thenBlock elseBlock span =>
    simp only [Stmt.relabel, execStmt, Expr.span_relabel]
    refine (h.expr condition).plainBind fun value => ?_
    refine (Carries.truth value _).plainBind fun taken => ?_
    cases taken with
    | true => exact execBlock_relabel h.stmt thenBlock
    | false => exact execBlock_relabel h.stmt elseBlock
  | whileDo condition body span =>
    simp only [Stmt.relabel, execStmt]
    exact h.loop condition body

theorem loop_succ (h : RelabelsAt r p p' fuel) (condition : Expr) (body : Block Stmt) :
    Carries (Stop.relabel r) id (execWhile p (fuel + 1) condition body)
      (execWhile p' (fuel + 1) (condition.relabel r) (body.relabel r)) := by
  simp only [execWhile, Expr.span_relabel]
  refine (h.expr condition).plainBind fun value => (Carries.truth value _).plainBind fun taken => ?_
  cases taken with
  | false => exact .pure _
  | true =>
    refine (execBlock_relabel h.stmt body).plainBind fun flow => ?_
    cases flow with
    | proceed => exact h.loop condition body
    | returned value => exact .pure _

end RelabelsAt

/-- Evaluation does not look at labels. -/
theorem relabelsAt
    (hfunctions : ∀ name, p'.function? name = (p.function? name).map (FunDecl.relabel r)) :
    ∀ fuel, RelabelsAt r p p' fuel := by
  intro fuel
  induction fuel with
  | zero =>
    constructor
    all_goals intros
    all_goals simpa only [evalExpr, callFunction, execStmt, execWhile] using .exhausted
  | succ fuel ih => exact ⟨ih.expr_succ hfunctions, ih.call_succ, ih.stmt_succ, ih.loop_succ⟩

theorem initGlobals_relabel (h : RelabelsAt r p p' fuel) (decls : List VarDecl) :
    Carries (Stop.relabel r) id (initGlobals p fuel decls)
      (initGlobals p' fuel (decls.map (VarDecl.relabel r))) := by
  induction decls with
  | nil => exact .pure _
  | cons decl decls ih => exact (define_relabel h.expr decl).plainBind fun _ => ih

end Evaluation

/-! ## Runs -/

/-- The end of a run, with its error at another place. -/
def Ending.relabel (r : Relabeling) : Ending → Ending
  | .returned value => .returned value
  | .rejected e => .rejected (e.relabel r)
  | .faulted e => .faulted (e.relabel r)
  | .exhausted => .exhausted

theorem Ending.ofStop_relabel (r : Relabeling) (stop : Stop) :
    Ending.ofStop (stop.relabel r) = (Ending.ofStop stop).relabel r := by
  cases stop with
  | exhausted => rfl
  | fault e =>
    have hstage : (e.relabel r).stage = e.stage := rfl
    simp only [Stop.relabel, Ending.ofStop, Ending.ofError, hstage]
    cases e.stage with
    | compile => rfl
    | runtime => rfl

/-- Arguments fit or do not fit the parameters of a function whatever its labels. -/
theorem argumentError?_relabel (r : Relabeling) (f : FunDecl) (arguments : List Value) :
    argumentError? (f.relabel r) arguments =
      (argumentError? f arguments).map (Error.relabel r) := by
  unfold argumentError?
  simp only [FunDecl.relabel, List.length_map]
  split
  · rfl
  · split
    · rfl
    · -- each pair is tested alike, and so are all of them
      rw [List.zip_map_left, List.findSome?_map, List.map_findSome?]
      congr 1
      funext entry
      obtain ⟨parameter, argument⟩ := entry
      by_cases h : argument.ty = parameter.type.ty
      · simp [Parameter.relabel, h]
      · simp [Parameter.relabel, h, Error.relabel]

section Runs

variable {r : Relabeling} {p p' : Program}

/-- The function to start with is found alike, and has the same things wrong with it. -/
theorem entry_relabel (hunlocated : r.span .unlocated = .unlocated)
    (hfunctions : ∀ name, p'.function? name = (p.function? name).map (FunDecl.relabel r))
    (name : String) (arguments : List Value) :
    entry p' name arguments = match entry p name arguments with
      | .error e => .error (e.relabel r)
      | .ok f => .ok (f.relabel r) := by
  unfold entry
  rw [hfunctions]
  cases p.function? name with
  | none => simp only [Option.map_none, Error.relabel, hunlocated]
  | some f =>
    simp only [Option.map_some, argumentError?_relabel]
    cases argumentError? f arguments with
    | none => rfl
    | some e => rfl

/-- **Runs do not look at labels.**  A program and one with other labels run from the same machine
to the same machine, and their ends differ in the place of an error at most. -/
theorem Machine.run_relabel (hunlocated : r.span .unlocated = .unlocated)
    (hglobals : p'.globals = p.globals.map (VarDecl.relabel r))
    (hfunctions : ∀ name, p'.function? name = (p.function? name).map (FunDecl.relabel r))
    (fuel : Nat) (name : String) (arguments : List Value) (m : Machine) :
    m.run p' fuel name arguments =
      (((m.run p fuel name arguments).1).relabel r, (m.run p fuel name arguments).2) := by
  have heval := relabelsAt hfunctions fuel
  have hexecute : ∀ f, Carries (Stop.relabel r) id (execute p fuel f arguments)
      (execute p' fuel (f.relabel r) arguments) := by
    intro f
    unfold execute
    rw [hglobals]
    exact (Carries.modify _).plainBind fun _ =>
      (initGlobals_relabel heval p.globals).plainBind fun _ => heval.call f arguments
  unfold run
  rw [entry_relabel hunlocated hfunctions]
  cases entry p name arguments with
  | error e => rfl
  | ok f =>
    simp only
    rw [hexecute f m]
    cases execute p fuel f arguments m with
    | ok value m' => rfl
    | error stop m' => simp only [mapEnd, Ending.ofStop_relabel]

end Runs

end TypedImp
