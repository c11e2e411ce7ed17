import TypedImp.Execution.Operators
import TypedImp.Frame
import TypedImp.Syntax.Program
import TypedImp.Typing.Context

/-!
# Running programs

Programs need not come to an end, so evaluation runs on fuel.  The state of a run, its frames and
what it has printed, is kept however the run ends.

* `Machine`, `Exec`: the state of a run, and computations that change it.
* `Exec.inFrame`: a computation in a frame of its own, which is gone afterwards.
* `evalExpr`, `callFunction`, `execStmt`, `execWhile`: the mutual recursion of evaluation.
* `execBody`, `execBlock`: statements in order.
-/

namespace TypedImp

/-- The state of a run. -/
structure Machine where
  frames : FrameStack
  /-- The lines printed so far. -/
  output : Array String
deriving DecidableEq, Repr

namespace Machine

/-- A run before its first step. -/
def initial : Machine := ⟨.initial, #[]⟩

end Machine

/-- A computation that changes the state of a run.  The state is kept however it ends. -/
abbrev Exec (α : Type) := EStateM Stop Machine α

/-- What a statement tells the statements behind it. -/
inductive Flow where
  /-- Go on. -/
  | proceed
  /-- The function is over and gives this value back. -/
  | returned (value : Value)
deriving DecidableEq, Repr

namespace Exec

/-- Ends the run with an error. -/
def raise {α : Type} (cause : Cause) (span : Span) : Exec α := throw (.fault ⟨cause, span⟩)

/-- Ends the run for want of fuel. -/
def exhausted {α : Type} : Exec α := throw .exhausted

/-- Changes the frames. -/
def modifyFrames (change : FrameStack → FrameStack) : Exec Unit :=
  modify fun m => { m with frames := change m.frames }

/-- Adds a variable to the active frame. -/
def bind (name : String) (value : Value) : Exec Unit := modifyFrames fun s => s.bind name value

/-- Prints each value on a line of its own. -/
def print (values : List Value) : Exec Unit :=
  modify fun m => { m with output := m.output ++ values.map Value.text }

/-- Runs a computation in a new frame, which is popped however the computation ends. -/
def inFrame {α : Type} (parent : Nat) (inner : Exec α) : Exec α := fun m =>
  match inner { m with frames := m.frames.push parent } with
  | .ok a m => .ok a { m with frames := m.frames.pop }
  | .error stop m => .error stop { m with frames := m.frames.pop }

/-- The value of a variable. -/
def lookup (name : String) (span : Span) : Exec Value := do
  match (← get).frames.get? name with
  | some value => return value
  | none => raise (.unboundVariable name) span

/-- Gives a variable a new value. -/
def assign (name : String) (value : Value) (span : Span) : Exec Unit := do
  let m ← get
  match m.frames.set? name value with
  | some frames => set { m with frames }
  | none => raise (.unboundVariable name) span

/-- The value that a variable without initializer starts with. -/
def zeroOf (t : Ty) (span : Span) : Exec Value :=
  match Value.zero? t with
  | some value => return value
  | none => raise (.inconsistency s!"values of type {t.spelling} cannot be created at runtime") span

/-- Runs the builtin of a name. -/
def callBuiltin (name : String) (arguments : List Value) (span : Span) : Exec Value := do
  if name = Builtin.print then
    print arguments
    return .void
  else raise (.inconsistency s!"{Text.quote name} is not a builtin") span

/-- Takes the truth value out of the value of a condition. -/
def truth (value : Value) (span : Span) : Exec Bool :=
  match value with
  | .bool b => return b
  | other =>
    raise (.inconsistency s!"condition evaluated to {other.ty.spelling} instead of Bool") span

/-- The value of a call, from how the body ended. -/
def resultOf (f : FunDecl) : Flow → Exec Value
  | .returned value => return value
  | .proceed => if f.result = .void then return .void else raise (.missingReturn f.name) f.span

end Exec

/-- Runs statements in order until one of them ends the function. -/
def execBody (exec : Stmt → Exec Flow) : List Stmt → Exec Flow
  | [] => return .proceed
  | s :: ss => do
    match ← exec s with
    | .proceed => execBody exec ss
    | .returned value => return .returned value

/-- Runs a nested block in a frame of its own.  An empty block has none. -/
def execBlock (exec : Stmt → Exec Flow) (block : Block Stmt) : Exec Flow := do
  if block.body.isEmpty then return .proceed
  else Exec.inFrame (← get).frames.active (execBody exec block.body)

/-- Binds parameters to arguments, one after the other. -/
def bindParameters : List Parameter → List Value → Exec Unit
  | parameter :: parameters, value :: values => do
    Exec.bind parameter.name value
    bindParameters parameters values
  | _, _ => return

/-- Evaluates expressions from left to right. -/
def evalEach (eval : Expr → Exec Value) : List Expr → Exec (List Value)
  | [] => return []
  | e :: es => do
    let value ← eval e
    let values ← evalEach eval es
    return value :: values

/-- The value that a variable starts with. -/
def startValue (eval : Expr → Exec Value) (decl : VarDecl) : Exec Value :=
  match decl.initializer with
  | some e => eval e
  | none => Exec.zeroOf decl.type.ty decl.span

/-- Defines a variable in the active frame.  Its initializer is evaluated before it exists. -/
def define (eval : Expr → Exec Value) (decl : VarDecl) : Exec Unit := do
  let value ← startValue eval decl
  Exec.bind decl.name value

mutual

/-- The value of an expression.  Operands and arguments are evaluated from left to right. -/
def evalExpr (program : Program) : (fuel : Nat) → Expr → Exec Value
  | 0, _ => Exec.exhausted
  | _ + 1, .number value _ _ => return value.toValue
  | _ + 1, .string value _ => return .string value
  | _ + 1, .bool value _ => return .bool value
  | _ + 1, .name name span => Exec.lookup name span
  | fuel + 1, .unary op operand span => do
    let value ← evalExpr program fuel operand
    match op.eval? value with
    | some result => return result
    | none =>
      Exec.raise (.inconsistency s!"prefix `{op.symbol}` applied to {value.ty.spelling}") span
  | fuel + 1, .binary op left right span => do
    let v ← evalExpr program fuel left
    let w ← evalExpr program fuel right
    match op.eval v w with
    | .ok result => return result
    | .error cause => Exec.raise cause span
  | fuel + 1, .call callee arguments span => do
    match callee.named? with
    | none => Exec.raise (.inconsistency "call of something that is not a function name") span
    | some (name, _) =>
      let values ← evalEach (evalExpr program fuel) arguments
      if name = Builtin.print then Exec.callBuiltin name values span
      else
        match program.function? name with
        | some f => callFunction program fuel f values
        | none =>
          Exec.raise (.inconsistency s!"call of unknown function {Text.quote name}") span

/-- The value of a call.  The body sees its parameters and the globals, and nothing of the
caller. -/
def callFunction (program : Program) : (fuel : Nat) → FunDecl → List Value → Exec Value
  | 0, _, _ => Exec.exhausted
  | fuel + 1, f, arguments => do
    let flow ← Exec.inFrame FrameStack.globalId do
      bindParameters f.parameters arguments
      execBody (execStmt program fuel) f.body.body
    Exec.resultOf f flow

/-- Runs a statement. -/
def execStmt (program : Program) : (fuel : Nat) → Stmt → Exec Flow
  | 0, _ => Exec.exhausted
  | fuel + 1, .call callee arguments callSpan _ => do
    let _ ← evalExpr program fuel (.call callee arguments callSpan)
    return .proceed
  | fuel + 1, .define decl => do
    define (evalExpr program fuel) decl
    return .proceed
  | fuel + 1, .assign name value span => do
    let value ← evalExpr program fuel value
    Exec.assign name value span
    return .proceed
  | _ + 1, .ret none _ => return .returned .void
  | fuel + 1, .ret (some e) _ => do
    return .returned (← evalExpr program fuel e)
  | fuel + 1, .ifThenElse condition thenBlock elseBlock _ => do
    let value ← evalExpr program fuel condition
    if ← Exec.truth value condition.span then execBlock (execStmt program fuel) thenBlock
    else execBlock (execStmt program fuel) elseBlock
  | fuel + 1, .whileDo condition body _ => execWhile program fuel condition body

/-- Runs a loop.  Every round has a new frame, so the body may define its variables again. -/
def execWhile (program : Program) : (fuel : Nat) → Expr → Block Stmt → Exec Flow
  | 0, _, _ => Exec.exhausted
  | fuel + 1, condition, body => do
    let value ← evalExpr program fuel condition
    if ← Exec.truth value condition.span then
      match ← execBlock (execStmt program fuel) body with
      | .proceed => execWhile program fuel condition body
      | .returned value => return .returned value
    else return .proceed

end

end TypedImp
