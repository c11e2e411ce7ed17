import TypedImp.Execution.Run
import TypedImp.Proofs.Typing.Rules

/-!
# What happens during a run

The result of a run does not tell what happened on the way.  So that one can speak about every call
and every assignment of a run, the run is repeated here with a record of its events.  The record is
written and never read: dropping it gives back the run itself, which is the first thing shown about
it (`Machine.record_eq_run`, in the module on simulations).

Events say what is done to the frames, so the frames of any moment can be found again from the
events before it.  A frame keeps the values of its variables but not the declarations that made
them; the moment found from the events has both.

* `Event`, `Record`: what can happen, and a machine with what has happened so far.
* `Logged.evalExpr`, `Logged.callFunction`, `Logged.execStmt`, `Logged.execWhile`: evaluation with a
  record.
* `Machine.record`: a whole run with its record.
* `Snapshot`, `replay`: frames and declarations after some events.
-/

namespace TypedImp

/-- What a run does to its frames, and the functions that it calls. -/
inductive Event where
  /-- A function is called.  It gets a frame from which searches go on in the globals. -/
  | call (f : FunDecl) (arguments : List Value)
  /-- A nested block is entered.  It gets a frame from which searches go on in the active one. -/
  | block
  /-- The active frame is popped. -/
  | leave
  /-- A variable of the active frame is made by a declaration. -/
  | bind (declaration : Binding) (value : Value)
  /-- The nearest variable of a name gets a new value. -/
  | set (name : String) (value : Value)

/-- A machine together with the events so far, the oldest first. -/
structure Record where
  machine : Machine
  events : List Event

namespace Record

/-- Notes an event. -/
def note (r : Record) (event : Event) : Record := { r with events := r.events ++ [event] }

/-- Changes the frames and notes the event that did it. -/
def perform (r : Record) (event : Event) (change : FrameStack → FrameStack) : Record :=
  ⟨{ r.machine with frames := change r.machine.frames }, r.events ++ [event]⟩

end Record

/-- A computation that changes the state of a run and keeps a record. -/
abbrev Logged (α : Type) := EStateM Stop Record α

namespace Logged

/-- A computation without events. -/
def lift {α : Type} (x : Exec α) : Logged α := fun r =>
  match x r.machine with
  | .ok a m => .ok a { r with machine := m }
  | .error stop m => .error stop { r with machine := m }

/-- Adds a variable to the active frame. -/
def bind (declaration : Binding) (value : Value) : Logged Unit :=
  modify fun r => r.perform (.bind declaration value) fun s => s.bind declaration.name value

/-- Gives a variable a new value. -/
def assign (name : String) (value : Value) (span : Span) : Logged Unit := do
  lift (Exec.assign name value span)
  modify fun r => r.note (.set name value)

/-- Runs a computation in a new frame, which is popped however the computation ends. -/
def inFrame {α : Type} (entering : Event) (parent : Nat) (inner : Logged α) : Logged α := fun r =>
  match inner (r.perform entering fun s => s.push parent) with
  | .ok a r => .ok a (r.perform .leave FrameStack.pop)
  | .error stop r => .error stop (r.perform .leave FrameStack.pop)

/-! ## Evaluation with a record -/

/-- Runs statements in order until one of them ends the function. -/
def execBody (exec : Stmt → Logged Flow) : List Stmt → Logged Flow
  | [] => return .proceed
  | s :: ss => do
    match ← exec s with
    | .proceed => execBody exec ss
    | .returned value => return .returned value

/-- Runs a nested block in a frame of its own.  An empty block has none. -/
def execBlock (exec : Stmt → Logged Flow) (block : Block Stmt) : Logged Flow := do
  if block.body.isEmpty then return .proceed
  else inFrame .block (← get).machine.frames.active (execBody exec block.body)

/-- Binds parameters to arguments, one after the other. -/
def bindParameters : List Parameter → List Value → Logged Unit
  | parameter :: parameters, value :: values => do
    bind parameter.binding value
    bindParameters parameters values
  | _, _ => return

/-- Evaluates expressions from left to right. -/
def evalEach (eval : Expr → Logged Value) : List Expr → Logged (List Value)
  | [] => return []
  | e :: es => do
    let value ← eval e
    let values ← evalEach eval es
    return value :: values

/-- The value that a variable starts with. -/
def startValue (eval : Expr → Logged Value) (decl : VarDecl) : Logged Value :=
  match decl.initializer with
  | some e => eval e
  | none => lift (Exec.zeroOf decl.type.ty decl.span)

/-- Defines a variable in the active frame. -/
def define (eval : Expr → Logged Value) (decl : VarDecl) : Logged Unit := do
  let value ← startValue eval decl
  bind decl.binding value

mutual

/-- The value of an expression. -/
def evalExpr (program : Program) : (fuel : Nat) → Expr → Logged Value
  | 0, _ => lift Exec.exhausted
  | _ + 1, .number value _ _ => return value.toValue
  | _ + 1, .string value _ => return .string value
  | _ + 1, .bool value _ => return .bool value
  | _ + 1, .name name span => lift (Exec.lookup name span)
  | fuel + 1, .unary op operand span => do
    let value ← evalExpr program fuel operand
    match op.eval? value with
    | some result => return result
    | none => lift <|
      Exec.raise (.inconsistency s!"prefix `{op.symbol}` applied to {value.ty.spelling}") span
  | fuel + 1, .binary op left right span => do
    let v ← evalExpr program fuel left
    let w ← evalExpr program fuel right
    match op.eval v w with
    | .ok result => return result
    | .error cause => lift (Exec.raise cause span)
  | fuel + 1, .call callee arguments span => do
    match callee.named? with
    | none => lift <|
      Exec.raise (.inconsistency "call of something that is not a function name") span
    | some (name, _) =>
      let values ← evalEach (evalExpr program fuel) arguments
      if name = Builtin.print then lift (Exec.callBuiltin name values span)
      else
        match program.function? name with
        | some f => callFunction program fuel f values
        | none => lift <|
          Exec.raise (.inconsistency s!"call of unknown function {Text.quote name}") span

/-- The value of a call. -/
def callFunction (program : Program) : (fuel : Nat) → FunDecl → List Value → Logged Value
  | 0, _, _ => lift Exec.exhausted
  | fuel + 1, f, arguments => do
    let flow ← inFrame (.call f arguments) FrameStack.globalId do
      bindParameters f.parameters arguments
      execBody (execStmt program fuel) f.body.body
    lift (Exec.resultOf f flow)

/-- Runs a statement. -/
def execStmt (program : Program) : (fuel : Nat) → Stmt → Logged Flow
  | 0, _ => lift Exec.exhausted
  | fuel + 1, .call callee arguments callSpan _ => do
    let _ ← evalExpr program fuel (.call callee arguments callSpan)
    return .proceed
  | fuel + 1, .define decl => do
    define (evalExpr program fuel) decl
    return .proceed
  | fuel + 1, .assign name value span => do
    let value ← evalExpr program fuel value
    assign name value span
    return .proceed
  | _ + 1, .ret none _ => return .returned .void
  | fuel + 1, .ret (some e) _ => do
    return .returned (← evalExpr program fuel e)
  | fuel + 1, .ifThenElse condition thenBlock elseBlock _ => do
    let value ← evalExpr program fuel condition
    if ← lift (Exec.truth value condition.span) then execBlock (execStmt program fuel) thenBlock
    else execBlock (execStmt program fuel) elseBlock
  | fuel + 1, .whileDo condition body _ => execWhile program fuel condition body

/-- Runs a loop. -/
def execWhile (program : Program) : (fuel : Nat) → Expr → Block Stmt → Logged Flow
  | 0, _, _ => lift Exec.exhausted
  | fuel + 1, condition, body => do
    let value ← evalExpr program fuel condition
    if ← lift (Exec.truth value condition.span) then
      match ← execBlock (execStmt program fuel) body with
      | .proceed => execWhile program fuel condition body
      | .returned value => return .returned value
    else return .proceed

end

/-- Gives the globals their values, one after the other. -/
def initGlobals (program : Program) (fuel : Nat) : List VarDecl → Logged Unit
  | [] => return
  | decl :: decls => do
    define (evalExpr program fuel) decl
    initGlobals program fuel decls

/-- The part of a run that happens in the frames. -/
def execute (program : Program) (fuel : Nat) (f : FunDecl) (arguments : List Value) :
    Logged Value := do
  lift (Exec.modifyFrames fun _ => .initial)
  initGlobals program fuel program.globals
  callFunction program fuel f arguments

end Logged

namespace Machine

/-- Runs the function of a name and keeps a record of the events.  The events begin behind the
clearing of the frames. -/
def record (program : Program) (fuel : Nat) (name : String) (arguments : List Value)
    (m : Machine) : Ending × Record :=
  match entry program name arguments with
  | .error error => (.rejected error, ⟨m, []⟩)
  | .ok f =>
    match Logged.execute program fuel f arguments ⟨m, []⟩ with
    | .ok value r => (.returned value, r)
    | .error stop r => (.ofStop stop, r)

end Machine

/-! ## Moments of a run -/

/-- The frames of a moment, and for each frame the declarations that made its variables, the latest
first. -/
structure Snapshot where
  frames : FrameStack
  declared : Nat → List Binding

namespace Snapshot

/-- The moment before the first event. -/
def initial : Snapshot := ⟨.initial, fun _ => []⟩

/-- A new frame, for which nothing has been declared. -/
def push (s : Snapshot) (parent : Nat) : Snapshot :=
  ⟨s.frames.push parent, fun id => if id = s.frames.active + 1 then [] else s.declared id⟩

/-- The active frame is popped. -/
def pop (s : Snapshot) : Snapshot := { s with frames := s.frames.pop }

/-- A declaration makes a variable in the active frame. -/
def bind (s : Snapshot) (declaration : Binding) (value : Value) : Snapshot :=
  ⟨s.frames.bind declaration.name value,
    fun id => if id = s.frames.active then declaration :: s.declared id else s.declared id⟩

/-- The nearest variable of a name gets a new value. -/
def set (s : Snapshot) (name : String) (value : Value) : Snapshot :=
  { s with frames := (s.frames.set? name value).getD s.frames }

theorem declared_push (s : Snapshot) (parent id : Nat) :
    (s.push parent).declared id = if id = s.frames.active + 1 then [] else s.declared id := rfl

theorem declared_bind (s : Snapshot) (declaration : Binding) (value : Value) (id : Nat) :
    (s.bind declaration value).declared id =
      if id = s.frames.active then declaration :: s.declared id else s.declared id := rfl

end Snapshot

namespace Event

/-- What an event makes of a moment. -/
def apply : Event → Snapshot → Snapshot
  | call _ _, s => s.push FrameStack.globalId
  | block, s => s.push s.frames.active
  | leave, s => s.pop
  | bind declaration value, s => s.bind declaration value
  | set name value, s => s.set name value

end Event

/-- The moment after some events of a run. -/
def replay (events : List Event) : Snapshot :=
  events.foldl (fun s event => event.apply s) .initial

@[simp] theorem replay_nil : replay [] = .initial := rfl

@[simp] theorem replay_snoc (events : List Event) (event : Event) :
    replay (events ++ [event]) = event.apply (replay events) := by
  simp [replay, List.foldl_append]

end TypedImp
