import TypedImp.Proofs.Execution.Layout
import TypedImp.Proofs.Execution.Simulation

/-!
# Safe steps

A run that keeps a record is followed step by step.  At each moment the frames are laid out as the
typing rules expect and the history is lawful; a computation that starts in such a moment ends in
one, whether it gives a value or stops.  Everything else can be read off from a lawful history: that
look-ups find values of the declared types, that calls get fitting arguments, and that assignments
go to mutable variables.

## What can stop a well-typed program

Want of fuel, a division by zero and the end of a function without a result cannot be seen from
types.  A missing variable can: it is always a global that has not been made yet.  Where no pending
global is in sight, as in the initializer of a global, the name was looked up by a function that the
expression calls.  `Excused` keeps track of both.

* `UnaryOp.eval?_of_accepts`, `BinaryOp.eval_of_accepts`: operators on values of the right types.
* `Record.Sound`: the invariant.
* `Excused`: the ways in which a well-typed program may stop.
* `Safe`: computations that keep the invariant and stop only in such ways.
* `Situated`: where an expression or a statement stands.
* `Situated.lookup`, `Situated.assign`: variables that are seen can be used.
-/

namespace TypedImp

/-! ## Operators and types -/

/-- An operator has a result on a value of a type that it accepts. -/
theorem UnaryOp.eval?_of_accepts {op : UnaryOp} {value : Value}
    (h : op.accepts value.ty = true) :
    ∃ result, op.eval? value = some result ∧ result.ty = value.ty := by
  cases op <;> cases value <;> first | exact ⟨_, rfl, rfl⟩ | cases h

theorem BinaryOp.ty_evalInt (op : BinaryOp) (m n : Int32) :
    (∃ result, op.evalInt m n = .ok result ∧ result.ty = op.resultTy .int32) ∨
      op.evalInt m n = .error .divisionByZero := by
  cases op with
  | div =>
    by_cases hn : n = 0
    · exact Or.inr (if_pos hn)
    · exact Or.inl ⟨_, if_neg hn, rfl⟩
  | _ => exact Or.inl ⟨_, rfl, rfl⟩

theorem BinaryOp.ty_evalFloat (op : BinaryOp) (v w : Float32) :
    (op.evalFloat v w).ty = op.resultTy .float32 := by
  cases op <;> rfl

/-- On two values of a type that it accepts, an operator has a result or divides by zero. -/
theorem BinaryOp.eval_of_accepts {op : BinaryOp} {v w : Value} (hty : w.ty = v.ty)
    (h : op.accepts v.ty = true) :
    (∃ result, op.eval v w = .ok result ∧ result.ty = op.resultTy v.ty) ∨
      op.eval v w = .error .divisionByZero := by
  cases v with
  | int32 m =>
    cases w with
    | int32 n => exact op.ty_evalInt m n
    | _ => cases hty
  | float32 m =>
    cases w with
    | float32 n => exact Or.inl ⟨_, rfl, op.ty_evalFloat m n⟩
    | _ => cases hty
  | bool a =>
    cases w with
    | bool b =>
      -- only the tests for equality accept truth values
      cases op with
      | eq => exact Or.inl ⟨_, rfl, rfl⟩
      | ne => exact Or.inl ⟨_, rfl, rfl⟩
      | _ => cases h
    | _ => cases hty
  | string a => cases op <;> cases h
  | void => cases op <;> cases h

theorem Literal.ty_toValue (l : Literal) : l.toValue.ty = l.ty := by
  cases l <;> rfl

/-- A type that variables can have has a value for them to start with. -/
theorem Value.zero?_of_hasValues {t : Ty} (h : t.hasValues = true) :
    ∃ value, Value.zero? t = some value ∧ value.ty = t := by
  simp only [Ty.hasValues, Bool.or_eq_true, decide_eq_true_eq] at h
  obtain ((rfl | rfl) | rfl) | rfl := h
  · exact ⟨_, rfl, rfl⟩
  · exact ⟨_, rfl, rfl⟩
  · exact ⟨_, rfl, rfl⟩
  · exact ⟨.string "", rfl, rfl⟩

/-! ## The invariant -/

/-- A record in the middle of a safe run: it tells the truth about the frames, they are laid out as
expected, and what has happened so far was lawful. -/
structure Record.Sound (program : Program) (L : Layout) (r : Record) : Prop where
  frames_eq : r.machine.frames = (replay r.events).frames
  describes : L.Describes (replay r.events)
  lawful : Lawful program r.events

/-- An expression calls the function of a name, itself or in some part of it. -/
inductive Expr.Calls (name : String) : Expr → Prop
  | here (nameSpan : Span) (arguments : List Expr) (span : Span) :
    Calls name (.call (.name name nameSpan) arguments span)
  | argument {callee argument : Expr} {arguments : List Expr} (span : Span)
    (mem : argument ∈ arguments) (inside : Calls name argument) :
    Calls name (.call callee arguments span)
  | operand {op : UnaryOp} {operand : Expr} (span : Span) (inside : Calls name operand) :
    Calls name (.unary op operand span)
  | left {op : BinaryOp} {left : Expr} (right : Expr) (span : Span) (inside : Calls name left) :
    Calls name (.binary op left right span)
  | right {op : BinaryOp} (left : Expr) {right : Expr} (span : Span) (inside : Calls name right) :
    Calls name (.binary op left right span)

/-- An expression calls a function that is defined in the program. -/
def Expr.CallsDefined (program : Program) (e : Expr) : Prop :=
  ∃ name f, name ≠ Builtin.print ∧ program.function? name = some f ∧ e.Calls name

/-- The ways in which a well-typed program may stop.  A variable is missing only if it is one of the
globals to come, and only if the given condition holds. -/
inductive Excused (later : List Binding) (condition : Prop) : Stop → Prop
  | exhausted : Excused later condition .exhausted
  | divisionByZero (span : Span) : Excused later condition (.fault ⟨.divisionByZero, span⟩)
  | missingReturn (name : String) (span : Span) :
    Excused later condition (.fault ⟨.missingReturn name, span⟩)
  | unbound {name : String} (span : Span) (mem : name ∈ later.map Binding.name)
    (holds : condition) :
    Excused later condition (.fault ⟨.unboundVariable name, span⟩)

theorem Excused.imp {later later' : List Binding} {P Q : Prop} {stop : Stop}
    (h : Excused later P stop) (hPQ : P → Q)
    (hlater : ∀ name ∈ later.map Binding.name, name ∈ later'.map Binding.name) :
    Excused later' Q stop := by
  cases h with
  | exhausted => exact .exhausted
  | divisionByZero span => exact .divisionByZero span
  | missingReturn name span => exact .missingReturn name span
  | unbound span mem holds => exact .unbound span (hlater _ mem) (hPQ holds)

/-- A weaker condition excuses as much. -/
theorem Excused.weaken {later : List Binding} {P Q : Prop} {stop : Stop}
    (h : Excused later P stop) (hPQ : P → Q) : Excused later Q stop :=
  h.imp hPQ fun _ hname => hname

/-- So do more globals to come. -/
theorem Excused.widen {later later' : List Binding} {P : Prop} {stop : Stop}
    (h : Excused later P stop)
    (hlater : ∀ name ∈ later.map Binding.name, name ∈ later'.map Binding.name) :
    Excused later' P stop :=
  h.imp (fun hP => hP) hlater

/-- From a sound record on, a computation gives a value and leaves a sound record, or it stops in an
excused way and leaves a sound record as well.  The layout has at most grown. -/
def Safe (program : Program) (excused : Stop → Prop) (L : Layout) {α : Type} (x : Logged α)
    (post : α → Layout → Prop) : Prop :=
  ∀ r, r.Sound program L →
    match x r with
    | .ok a r' => ∃ L', L.Grows L' ∧ post a L' ∧ r'.Sound program L'
    | .error stop r' => excused stop ∧ ∃ L', L.Grows L' ∧ r'.Sound program L'

namespace Safe

variable {program : Program} {excused : Stop → Prop} {L : Layout} {α β : Type}

theorem pure {post : α → Layout → Prop} {a : α} (h : post a L) :
    Safe program excused L (pure a) post :=
  fun _ hr => ⟨L, .refl L, h, hr⟩

theorem raise {post : α → Layout → Prop} {cause : Cause} {span : Span}
    (h : excused (.fault ⟨cause, span⟩)) :
    Safe program excused L (Logged.lift (Exec.raise cause span)) post :=
  fun _ hr => ⟨h, L, .refl L, hr⟩

theorem exhausted {post : α → Layout → Prop} (h : excused .exhausted) :
    Safe program excused L (Logged.lift Exec.exhausted) post :=
  fun _ hr => ⟨h, L, .refl L, hr⟩

theorem bind {x : Logged α} {f : α → Logged β} {mid : α → Layout → Prop} {post : β → Layout → Prop}
    (hx : Safe program excused L x mid)
    (hf : ∀ a L', L.Grows L' → mid a L' → Safe program excused L' (f a) post) :
    Safe program excused L (x >>= f) post := by
  intro r hr
  have hxr := hx r hr
  change match EStateM.bind x f r with
    | .ok a r' => _
    | .error stop r' => _
  unfold EStateM.bind
  cases hres : x r with
  | error stop r' =>
    rw [hres] at hxr
    exact hxr
  | ok a r₁ =>
    rw [hres] at hxr
    obtain ⟨L₁, hgrows, hmid, hr₁⟩ := hxr
    have hfr := hf a L₁ hgrows hmid r₁ hr₁
    dsimp only
    cases hres' : f a r₁ with
    | ok b r₂ =>
      rw [hres'] at hfr
      obtain ⟨L₂, hgrows', hpost, hr₂⟩ := hfr
      exact ⟨L₂, hgrows.trans hgrows', hpost, hr₂⟩
    | error stop r₂ =>
      rw [hres'] at hfr
      obtain ⟨hexcused, L₂, hgrows', hr₂⟩ := hfr
      exact ⟨hexcused, L₂, hgrows.trans hgrows', hr₂⟩

theorem imp {excused' : Stop → Prop} {x : Logged α} {post post' : α → Layout → Prop}
    (h : Safe program excused L x post) (hexcused : ∀ stop, excused stop → excused' stop)
    (hpost : ∀ a L', post a L' → post' a L') : Safe program excused' L x post' := by
  intro r hr
  have hxr := h r hr
  cases hres : x r with
  | ok a r' =>
    rw [hres] at hxr
    obtain ⟨L', hgrows, hp, hr'⟩ := hxr
    exact ⟨L', hgrows, hpost a L' hp, hr'⟩
  | error stop r' =>
    rw [hres] at hxr
    exact ⟨hexcused stop hxr.1, hxr.2⟩

/-- More ways to stop may be excused. -/
theorem excuse {excused' : Stop → Prop} {x : Logged α} {post : α → Layout → Prop}
    (h : Safe program excused L x post) (hexcused : ∀ stop, excused stop → excused' stop) :
    Safe program excused' L x post :=
  h.imp hexcused fun _ _ hpost => hpost

/-- Less may be said of the result. -/
theorem ensure {x : Logged α} {post post' : α → Layout → Prop}
    (h : Safe program excused L x post) (hpost : ∀ a L', post a L' → post' a L') :
    Safe program excused L x post' :=
  h.imp (fun _ hstop => hstop) hpost

/-- A new frame.  When it is left the layout is the old one. -/
theorem inFrame {entering : Event} {parent : Nat} {x : Logged α} {post : α → Prop}
    (hactive : 1 ≤ L.active)
    (henter : ∀ s, L.Describes s → entering.Lawful program s ∧ entering.apply s = s.push parent)
    (h : Safe program excused (L.push parent) x fun a _ => post a) :
    Safe program excused L (Logged.inFrame entering parent x) fun a L' => post a ∧ L' = L := by
  intro r hr
  obtain ⟨hlawful, happly⟩ := henter _ hr.describes
  have hentered : (r.perform entering fun s => s.push parent).Sound program (L.push parent) := by
    refine ⟨?_, ?_, hr.lawful.snoc hlawful⟩
    · simp only [Record.perform, replay_snoc, happly, hr.frames_eq]
      rfl
    · simp only [Record.perform, replay_snoc, happly]
      exact hr.describes.push parent
  have hleave : ∀ {r' L'}, (L.push parent).Grows L' → Record.Sound program L' r' →
      (r'.perform .leave FrameStack.pop).Sound program L := by
    intro r' L' hgrows hr'
    refine ⟨?_, ?_, hr'.lawful.snoc trivial⟩
    · simp only [Record.perform, replay_snoc, hr'.frames_eq]
      rfl
    · simp only [Record.perform, replay_snoc]
      exact hr'.describes.pop hgrows hactive
  have hinner := h _ hentered
  unfold Logged.inFrame
  cases hres : x (r.perform entering fun s => s.push parent) with
  | ok a r' =>
    rw [hres] at hinner
    obtain ⟨L', hgrows, hpost, hr'⟩ := hinner
    exact ⟨L, .refl L, ⟨hpost, rfl⟩, hleave hgrows hr'⟩
  | error stop r' =>
    rw [hres] at hinner
    obtain ⟨hexcused, L', hgrows, hr'⟩ := hinner
    exact ⟨hexcused, L, .refl L, hleave hgrows hr'⟩

/-- A variable of the active frame, made with a value of its type. -/
theorem bindVariable {declaration : Binding} {value : Value}
    (h : value.ty = declaration.type.ty) :
    Safe program excused L (Logged.bind declaration value)
      fun _ L' => L' = L.declare declaration := by
  intro r hr
  refine ⟨_, L.grows_declare declaration, rfl, ?_, ?_, hr.lawful.snoc h⟩
  · simp only [Record.perform, replay_snoc, hr.frames_eq]
    rfl
  · simp only [Record.perform, replay_snoc]
    exact hr.describes.bind declaration value

theorem print (arguments : List Value) (span : Span) :
    Safe program excused L (Logged.lift (Exec.callBuiltin Builtin.print arguments span))
      fun value L' => value.ty = .void ∧ L' = L :=
  fun _ hr => ⟨L, .refl L, ⟨rfl, rfl⟩, hr.frames_eq, hr.describes, hr.lawful⟩

theorem truth {value : Value} (h : value.ty = .bool) (span : Span) :
    Safe program excused L (Logged.lift (Exec.truth value span)) fun _ L' => L' = L := by
  cases value with
  | bool b => exact Safe.pure rfl
  | _ => cases h

end Safe

/-! ## Situations -/

/-- Where an expression or a statement stands: it sees the given scopes from the active frame, and
the globals of the program are those that have been made and those to come later.  The pending ones,
which can be seen already, are all of the later ones or none. -/
structure Situated (program : Program) (later pending : List Binding) (L : Layout)
    (env : Visible) : Prop where
  globals_eq : program.globalScope = later ++ L.declared FrameStack.globalId
  pending_later : pending.Sublist later
  sees : L.Sees pending L.active env

namespace Situated

variable {signatures : Signatures} {program : Program} {later pending : List Binding} {L : Layout}
  {env : Visible}

/-- A declaration in a frame above the globals. -/
theorem declare {scope : List Binding} {outer : Visible}
    (h : Situated program later pending L (scope :: outer)) (hactive : 2 ≤ L.active) (b : Binding) :
    Situated program later pending (L.declare b) ((b :: scope) :: outer) where
  globals_eq := by
    rw [(L.grows_declare b).declared_eq _ (by simp only [FrameStack.globalId]; omega)]
    exact h.globals_eq
  pending_later := h.pending_later
  sees := h.sees.grow hactive (L.grows_declare b) (by
    rw [L.declared_declare_active, h.sees.head_eq hactive])

theorem declared_push_globals {parent : Nat} (hactive : 1 ≤ L.active) :
    (L.push parent).declared FrameStack.globalId = L.declared FrameStack.globalId :=
  if_neg (by simp only [FrameStack.globalId]; omega)

/-- A nested block. -/
theorem block (h : Situated program later pending L env) :
    Situated program later pending (L.push L.active) ([] :: env) where
  globals_eq := by
    rw [declared_push_globals h.sees.one_le]
    exact h.globals_eq
  pending_later := h.pending_later
  sees := h.sees.push (Nat.le_refl _)

/-- The body of a function, before its parameters. -/
theorem call (hglobals : program.globalScope = later ++ L.declared FrameStack.globalId)
    (hactive : 1 ≤ L.active) :
    Situated program later later (L.push FrameStack.globalId) [[], program.globalScope] where
  globals_eq := by
    rw [declared_push_globals hactive]
    exact hglobals
  pending_later := List.Sublist.refl later
  sees := by
    rw [hglobals]
    exact Layout.Sees.globals.push hactive

/-- The variable that is seen under a name is found, or it is a pending global. -/
theorem declarationOf?_eq (typed : ProgramTyped signatures program)
    (h : Situated program later pending L env) {r : Record} (hr : r.Sound program L)
    {name : String} {b : Binding} (seen : env.lookup? name = some b) :
    (replay r.events).declarationOf? name = some b ∨
      r.machine.frames.frameOf? name = none ∧ name ∈ pending.map Binding.name := by
  rw [hr.frames_eq]
  refine h.sees.declarationOf?_eq hr.describes hr.lawful.sound ?_ seen
  have hsub : (pending ++ L.declared FrameStack.globalId).Sublist program.globalScope := by
    rw [h.globals_eq]
    exact h.pending_later.append (List.Sublist.refl _)
  exact typed.distinct.sublist (hsub.map Binding.name)

/-- The name of a pending global is that of a later one, and there are pending globals. -/
theorem excused_unbound (h : Situated program later pending L env) {name : String} (span : Span)
    (hname : name ∈ pending.map Binding.name) (P : Prop) :
    Excused later (pending = [] → P) (.fault ⟨.unboundVariable name, span⟩) := by
  refine .unbound span ((h.pending_later.map Binding.name).subset hname) fun hempty => ?_
  rw [hempty] at hname
  cases hname

theorem lookup (typed : ProgramTyped signatures program)
    (h : Situated program later pending L env) {name : String} {b : Binding}
    (seen : env.lookup? name = some b) (span : Span) (P : Prop) :
    Safe program (Excused later (pending = [] → P)) L (Logged.lift (Exec.lookup name span))
      fun value L' => value.ty = b.type.ty ∧ L' = L := by
  intro r hr
  unfold Logged.lift
  rcases h.declarationOf?_eq typed hr seen with hfound | ⟨hnone, hname⟩
  · obtain ⟨value, hget, hty⟩ := hr.lawful.sound.get?_of_declarationOf? hfound
    rw [← hr.frames_eq] at hget
    rw [Exec.lookup_of_some span hget]
    exact ⟨L, .refl L, ⟨hty, rfl⟩, hr⟩
  · have hget : r.machine.frames.get? name = none := by
      rw [FrameStack.get?, hnone, Option.bind_none]
    rw [Exec.lookup_of_none span hget]
    exact ⟨h.excused_unbound span hname P, L, .refl L, hr⟩

theorem assign (typed : ProgramTyped signatures program)
    (h : Situated program later pending L env) {name : String} {b : Binding}
    (seen : env.lookup? name = some b) (isMutable : b.type.isMutable = true) {value : Value}
    (hvalue : value.ty = b.type.ty) (span : Span) :
    Safe program (Excused later True) L (Logged.assign name value span) fun _ L' => L' = L := by
  intro r hr
  rcases h.declarationOf?_eq typed hr seen with hfound | ⟨hnone, hname⟩
  · obtain ⟨id, -, hset⟩ := hr.lawful.sound.set?_of_declarationOf? hfound value
    have hset' := hset
    rw [← hr.frames_eq] at hset'
    rw [Logged.assign_of_some span hset']
    refine ⟨L, .refl L, rfl, ?_, ?_, hr.lawful.snoc ⟨b, hfound, isMutable, hvalue⟩⟩
    · simp only [Record.perform, replay_snoc, Event.apply, Snapshot.set]
      rw [hset, Option.getD_some, hr.frames_eq]
    · simp only [Record.perform, replay_snoc]
      exact hr.describes.set hset
  · have hset : r.machine.frames.set? name value = none := by
      rw [FrameStack.set?, hnone, Option.map_none]
    rw [Logged.assign_of_none span hset]
    exact ⟨(h.excused_unbound span hname True).weaken fun _ => trivial, L, .refl L, hr⟩

end Situated

end TypedImp
