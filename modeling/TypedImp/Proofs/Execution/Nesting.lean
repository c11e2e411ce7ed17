import TypedImp.Proofs.Execution.Simulation

/-!
# The events of a computation are nested

A computation enters frames and leaves them, and between the two it runs other computations that do
the same.  So the events that it adds to the record form a word with brackets: what enters a frame
opens a bracket, and `leave` closes it.  A computation that stops with an error closes all brackets
that it has opened before it is over, at any depth.

## Liberties

Inside a bracket everything may happen, but outside of all brackets a computation does only what
its kind allows.  An expression consists of calls alone.  A nested block or a loop may also give new
values to variables that were there before it.  A list of statements may in addition make variables
in the frame in which it runs.

* `Event.act`, `FrameStack.after`: what events make of a stack of frames.
* `Liberty`, `Nested`: words with brackets, by what may happen outside of them.
* `Logged.Nests`: a computation adds such a word to the record, and its events tell what became of
  the frames.
* `nestsAt`: **all parts of evaluation do so**, in any program and however they end.
-/

namespace TypedImp

/-! ## Frames after events -/

/-- What an event makes of the frames. -/
def Event.act (event : Event) (s : FrameStack) : FrameStack := (event.apply ⟨s, fun _ => []⟩).frames

namespace FrameStack

/-- The frames after some events. -/
def after (s : FrameStack) (events : List Event) : FrameStack :=
  events.foldl (fun s event => event.act s) s

@[simp] theorem after_cons (s : FrameStack) (event : Event) (events : List Event) :
    s.after (event :: events) = (event.act s).after events := rfl

@[simp] theorem after_append (s : FrameStack) (events events' : List Event) :
    s.after (events ++ events') = (s.after events).after events' :=
  List.foldl_append

end FrameStack

/-! ## Words with brackets -/

/-- What a computation may do to frames that were there before it. -/
inductive Liberty where
  /-- Call functions. -/
  | calls
  /-- Give variables new values, too. -/
  | values
  /-- Make variables in the active frame, too. -/
  | variables

/-- Whether variables that were there before may get new values. -/
def Liberty.allowsValues : Liberty → Bool
  | .calls => false
  | .values | .variables => true

/-- Events in which every frame that is entered is left again.  Inside the frames that are entered
everything may happen, outside of them what the liberty allows. -/
inductive Nested : Liberty → List Event → Prop
  | nil (l : Liberty) : Nested l []
  | append {l : Liberty} {events events' : List Event} (first : Nested l events)
    (second : Nested l events') : Nested l (events ++ events')
  | call (l : Liberty) (f : FunDecl) (arguments : List Value) {events : List Event}
    (inside : Nested .variables events) : Nested l (.call f arguments :: (events ++ [.leave]))
  | block {l : Liberty} (allowed : l.allowsValues = true) {events : List Event}
    (inside : Nested .variables events) : Nested l (.block :: (events ++ [.leave]))
  | set {l : Liberty} (allowed : l.allowsValues = true) (name : String) (value : Value) :
    Nested l [.set name value]
  | bind (declaration : Binding) (value : Value) : Nested .variables [.bind declaration value]

namespace Nested

variable {l : Liberty} {events : List Event}

/-- Calls are allowed everywhere. -/
theorem of_calls (h : Nested .calls events) : Nested l events := by
  generalize hcalls : Liberty.calls = l' at h
  induction h with
  | nil => exact .nil l
  | append _ _ ih ih' => exact .append (ih hcalls) (ih' hcalls)
  | call _ f arguments inside => exact .call l f arguments inside
  | block allowed => subst hcalls; cases allowed
  | set allowed => subst hcalls; cases allowed
  | bind => cases hcalls

/-- Everything is allowed to lists of statements. -/
theorem to_variables (h : Nested l events) : Nested .variables events := by
  induction h with
  | nil => exact .nil .variables
  | append _ _ ih ih' => exact .append ih ih'
  | call _ f arguments inside => exact .call .variables f arguments inside
  | block _ inside => exact .block rfl inside
  | set _ name value => exact .set rfl name value
  | bind declaration value => exact .bind declaration value

end Nested

/-! ## Computations -/

/-- A computation that does nothing to the frames. -/
def Exec.SparesFrames {α : Type} (x : Exec α) : Prop := ∀ m, (final (x m)).frames = m.frames

namespace Exec.SparesFrames

theorem lookup (name : String) (span : Span) : SparesFrames (Exec.lookup name span) := by
  intro m
  cases hget : m.frames.get? name with
  | some value => rw [Exec.lookup_of_some span hget]; rfl
  | none => rw [Exec.lookup_of_none span hget]; rfl

theorem zeroOf (t : Ty) (span : Span) : SparesFrames (Exec.zeroOf t span) := by
  intro m
  unfold Exec.zeroOf
  cases Value.zero? t <;> rfl

theorem callBuiltin (name : String) (arguments : List Value) (span : Span) :
    SparesFrames (Exec.callBuiltin name arguments span) := by
  intro m
  unfold Exec.callBuiltin
  split <;> rfl

theorem truth (value : Value) (span : Span) : SparesFrames (Exec.truth value span) := by
  intro m
  unfold Exec.truth
  split <;> rfl

theorem resultOf (f : FunDecl) (flow : Flow) : SparesFrames (Exec.resultOf f flow) := by
  intro m
  unfold Exec.resultOf
  split
  · rfl
  · split <;> rfl

end Exec.SparesFrames

/-- From a record on, a computation adds nested events, and they tell what becomes of the frames. -/
def Logged.NestsFrom {α : Type} (l : Liberty) (x : Logged α) (r : Record) : Prop :=
  ∃ events, Nested l events ∧ (final (x r)).events = r.events ++ events ∧
    (final (x r)).machine.frames = r.machine.frames.after events

/-- A computation adds nested events to every record. -/
def Logged.Nests {α : Type} (l : Liberty) (x : Logged α) : Prop := ∀ r, NestsFrom l x r

namespace Logged.Nests

variable {α β : Type} {l : Liberty} {x : Logged α}

theorem of_calls (h : Nests .calls x) : Nests l x := by
  intro r
  obtain ⟨events, hnested, hrest⟩ := h r
  exact ⟨events, hnested.of_calls, hrest⟩

theorem to_variables (h : Nests l x) : Nests .variables x := by
  intro r
  obtain ⟨events, hnested, hrest⟩ := h r
  exact ⟨events, hnested.to_variables, hrest⟩

theorem pure (a : α) : Nests l (Pure.pure a : Logged α) :=
  fun _ => ⟨[], .nil l, (List.append_nil _).symm, rfl⟩

/-- Without events if the frames are spared. -/
theorem lift {x : Exec α} (h : x.SparesFrames) : Nests l (Logged.lift x) := by
  intro r
  have hframes := h r.machine
  unfold NestsFrom Logged.lift
  generalize x r.machine = result at hframes ⊢
  cases result with
  | ok a m => exact ⟨[], .nil l, (List.append_nil _).symm, hframes⟩
  | error stop m => exact ⟨[], .nil l, (List.append_nil _).symm, hframes⟩

theorem raise (cause : Cause) (span : Span) :
    Nests l (Logged.lift (Exec.raise (α := α) cause span)) :=
  lift fun _ => rfl

theorem exhausted : Nests l (Logged.lift (Exec.exhausted (α := α))) := lift fun _ => rfl

/-- One computation after the other.  If the first one fails, there is no second one. -/
theorem bind {f : α → Logged β} (hx : Nests l x) (hf : ∀ a, Nests l (f a)) :
    Nests l (x >>= f) := by
  intro r
  obtain ⟨events, hnested, hevents, hframes⟩ := hx r
  change NestsFrom l (EStateM.bind x f) r
  unfold NestsFrom EStateM.bind
  generalize x r = result at hevents hframes ⊢
  cases result with
  | error stop r' => exact ⟨events, hnested, hevents, hframes⟩
  | ok a r' =>
    obtain ⟨events', hnested', hevents', hframes'⟩ := hf a r'
    refine ⟨events ++ events', hnested.append hnested', hevents'.trans ?_, hframes'.trans ?_⟩
    · rw [show r'.events = _ from hevents, List.append_assoc]
    · rw [show r'.machine.frames = _ from hframes, FrameStack.after_append]

/-- A computation in a frame of its own opens a bracket and closes it. -/
theorem inFrame {entering : Event} {parent : Nat} (hx : Nests .variables x)
    (hword : ∀ events, Nested .variables events → Nested l (entering :: (events ++ [.leave])))
    {r : Record} (hact : entering.act r.machine.frames = r.machine.frames.push parent) :
    NestsFrom l (Logged.inFrame entering parent x) r := by
  obtain ⟨events, hnested, hevents, hframes⟩ := hx (r.perform entering fun s => s.push parent)
  unfold NestsFrom Logged.inFrame
  generalize x (r.perform entering fun s => s.push parent) = result at hevents hframes ⊢
  have hleave : (r.machine.frames.push parent).after (events ++ [.leave]) =
      ((r.machine.frames.push parent).after events).pop := by
    rw [FrameStack.after_append]
    rfl
  refine ⟨entering :: (events ++ [.leave]), hword events hnested, ?_, ?_⟩
  · have hword : (final result).events ++ [.leave] =
        r.events ++ entering :: (events ++ [.leave]) := by
      rw [hevents]
      simp [Record.perform]
    cases result with
    | ok a r' => exact hword
    | error stop r' => exact hword
  · rw [FrameStack.after_cons, hact, hleave]
    cases result with
    | ok a r' => exact congrArg FrameStack.pop hframes
    | error stop r' => exact congrArg FrameStack.pop hframes

theorem bindVariable (declaration : Binding) (value : Value) :
    Nests .variables (Logged.bind declaration value) :=
  fun _ => ⟨[.bind declaration value], .bind declaration value, rfl, rfl⟩

theorem assign (hl : l.allowsValues = true) (name : String) (value : Value) (span : Span) :
    Nests l (Logged.assign name value span) := by
  intro r
  cases hset : r.machine.frames.set? name value with
  | none =>
    rw [NestsFrom, Logged.assign_of_none span hset]
    exact ⟨[], .nil l, (List.append_nil _).symm, rfl⟩
  | some s =>
    rw [NestsFrom, Logged.assign_of_some span hset]
    refine ⟨[.set name value], .set hl name value, rfl, ?_⟩
    exact (congrArg (Option.getD · r.machine.frames) hset).symm

theorem execBody {exec : Stmt → Logged Flow} (h : ∀ s, Nests l (exec s)) (ss : List Stmt) :
    Nests l (Logged.execBody exec ss) := by
  induction ss with
  | nil => exact pure Flow.proceed
  | cons s ss ih =>
    refine bind (h s) fun flow => ?_
    cases flow with
    | proceed => exact ih
    | returned value => exact pure (Flow.returned value)

/-- A nested block may do anything in its own frame. -/
theorem execBlock {exec : Stmt → Logged Flow} (h : ∀ s, Nests .variables (exec s))
    (hl : l.allowsValues = true) (block : Block Stmt) : Nests l (Logged.execBlock exec block) := by
  unfold Logged.execBlock
  split
  · exact pure Flow.proceed
  · intro r
    exact inFrame (execBody h block.body) (fun _ hword => .block hl hword) rfl

theorem bindParameters : ∀ (parameters : List Parameter) (values : List Value),
    Nests .variables (Logged.bindParameters parameters values)
  | [], _ => pure ()
  | _ :: _, [] => pure ()
  | parameter :: parameters, value :: values =>
    bind (bindVariable parameter.binding value) fun _ => bindParameters parameters values

theorem evalEach {eval : Expr → Logged Value} (h : ∀ e, Nests l (eval e)) (es : List Expr) :
    Nests l (Logged.evalEach eval es) := by
  induction es with
  | nil => exact pure []
  | cons e es ih => exact bind (h e) fun value => bind ih fun values => pure (value :: values)

theorem define {eval : Expr → Logged Value} (h : ∀ e, Nests .variables (eval e))
    (decl : VarDecl) : Nests .variables (Logged.define eval decl) := by
  refine bind ?_ fun value => bindVariable decl.binding value
  unfold Logged.startValue
  cases decl.initializer with
  | some e => exact h e
  | none => exact lift (.zeroOf decl.type.ty decl.span)

end Logged.Nests

/-! ## Evaluation -/

open Logged (Nests)

/-- The four parts of evaluation with some fuel. -/
structure NestsAt (program : Program) (fuel : Nat) : Prop where
  expr : ∀ e, Nests .calls (Logged.evalExpr program fuel e)
  call : ∀ f arguments, Nests .calls (Logged.callFunction program fuel f arguments)
  stmt : ∀ s, Nests .variables (Logged.execStmt program fuel s)
  loop : ∀ condition body, Nests .values (Logged.execWhile program fuel condition body)

section

variable {program : Program} {fuel : Nat}

theorem nests_expr_succ (ih : NestsAt program fuel) (e : Expr) :
    Nests .calls (Logged.evalExpr program (fuel + 1) e) := by
  cases e with
  | number value text span => exact .pure value.toValue
  | string value span => exact .pure (Value.string value)
  | bool value span => exact .pure (Value.bool value)
  | name name span => exact .lift (.lookup name span)
  | unary op operand span =>
    rw [Logged.evalExpr]
    refine .bind (ih.expr operand) fun value => ?_
    cases op.eval? value with
    | some result => exact .pure result
    | none => exact .raise _ span
  | binary op left right span =>
    rw [Logged.evalExpr]
    refine .bind (ih.expr left) fun v => .bind (ih.expr right) fun w => ?_
    cases op.eval v w with
    | ok result => exact .pure result
    | error cause => exact .raise cause span
  | call callee arguments span =>
    rw [Logged.evalExpr]
    cases callee.named? with
    | none => exact .raise _ span
    | some named =>
      refine .bind (.evalEach ih.expr arguments) fun values => ?_
      split
      · exact .lift (.callBuiltin named.1 values span)
      · cases program.function? named.1 with
        | some f => exact ih.call f values
        | none => exact .raise _ span

theorem nests_call_succ (ih : NestsAt program fuel) (f : FunDecl) (arguments : List Value) :
    Nests .calls (Logged.callFunction program (fuel + 1) f arguments) := by
  rw [Logged.callFunction]
  refine .bind (fun r => ?_) fun flow => .lift (.resultOf f flow)
  refine Nests.inFrame ?_ (fun _ hword => .call .calls f arguments hword) rfl
  exact .bind (.bindParameters f.parameters arguments) fun _ => .execBody ih.stmt f.body.body

theorem nests_stmt_succ (ih : NestsAt program fuel) (s : Stmt) :
    Nests .variables (Logged.execStmt program (fuel + 1) s) := by
  cases s with
  | call callee arguments callSpan span =>
    rw [Logged.execStmt]
    exact .bind (ih.expr _).of_calls fun _ => .pure Flow.proceed
  | define decl =>
    rw [Logged.execStmt]
    exact .bind (.define (fun e => (ih.expr e).of_calls) decl) fun _ => .pure Flow.proceed
  | assign name value span =>
    rw [Logged.execStmt]
    refine .bind (ih.expr value).of_calls fun v => ?_
    exact .bind (.assign rfl name v span) fun _ => .pure Flow.proceed
  | ret value span =>
    cases value with
    | none => exact .pure (Flow.returned Value.void)
    | some e =>
      rw [Logged.execStmt]
      exact .bind (ih.expr e).of_calls fun v => .pure (Flow.returned v)
  | ifThenElse condition thenBlock elseBlock span =>
    rw [Logged.execStmt]
    refine .bind (ih.expr condition).of_calls fun value => ?_
    refine .bind (.lift (.truth value condition.span)) fun b => ?_
    cases b with
    | true => exact .execBlock ih.stmt rfl thenBlock
    | false => exact .execBlock ih.stmt rfl elseBlock
  | whileDo condition body span =>
    rw [Logged.execStmt]
    exact (ih.loop condition body).to_variables

theorem nests_loop_succ (ih : NestsAt program fuel) (condition : Expr) (body : Block Stmt) :
    Nests .values (Logged.execWhile program (fuel + 1) condition body) := by
  rw [Logged.execWhile]
  refine .bind (ih.expr condition).of_calls fun value => ?_
  refine .bind (.lift (.truth value condition.span)) fun b => ?_
  cases b with
  | false => exact .pure Flow.proceed
  | true =>
    refine .bind (.execBlock ih.stmt rfl body) fun flow => ?_
    cases flow with
    | proceed => exact ih.loop condition body
    | returned v => exact .pure (Flow.returned v)

/-- **The events of a computation are nested**, in any program and however the computation ends. -/
theorem nestsAt (program : Program) (fuel : Nat) : NestsAt program fuel := by
  induction fuel with
  | zero =>
    exact ⟨fun _ => .exhausted, fun _ _ => .exhausted, fun _ => .exhausted,
      fun _ _ => .exhausted⟩
  | succ fuel ih =>
    exact ⟨nests_expr_succ ih, nests_call_succ ih, nests_stmt_succ ih, nests_loop_succ ih⟩

end

end TypedImp
