import TypedImp.Proofs.Execution.SafeRuns
import TypedImp.Proofs.Typing.Checking

/-!
# Only the order of the globals leaves variables unbound

Checking lets every function see all globals, and lets initializers of globals call any function.
So a function can run while some of the globals it sees have not been made yet, and that is the one
way in which a name that passed the checks has no variable.

## Where the failure is found

A run either makes all its globals or stops at one of them.  In the first case no global is left to
come, and the call of the main function has nothing to miss.  In the second case the globals before
the failing one have been made, and its initializer is evaluated with none of the others in sight;
that a name was missing nevertheless means that a function was called.

* `initGlobals_eq_error`: where making globals stops.
* `exists_sound_of_initGlobals_eq_ok`: what is known when it has not stopped yet.
* `callFunction_ne_unbound`: with all globals made, nothing is missing.
* `unbound_only_from_global_order`: what a missing variable tells about the program.
-/

namespace TypedImp

namespace Logged

/-! ## Finding the record again -/

variable {α : Type} {x : EStateM.Result Stop Record α} {m : Machine}

theorem of_forget_eq_ok {a : α} (h : forget x = .ok a m) : ∃ r, x = .ok a r ∧ r.machine = m := by
  cases x with
  | ok b r => cases h; exact ⟨r, rfl, rfl⟩
  | error stop r => cases h

theorem of_forget_eq_error {stop : Stop} (h : forget x = .error stop m) :
    ∃ r, x = .error stop r ∧ r.machine = m := by
  cases x with
  | ok b r => cases h
  | error stop' r => cases h; exact ⟨r, rfl, rfl⟩

end Logged

theorem Ending.eq_of_ofStop_eq_faulted {stop : Stop} {e : Error}
    (h : Ending.ofStop stop = .faulted e) : stop = .fault e := by
  cases stop with
  | exhausted => cases h
  | fault e' =>
    unfold Ending.ofStop Ending.ofError at h
    dsimp only at h
    split at h
    · cases h
    · cases h; rfl

/-! ## Where making globals stops -/

theorem define_eq_ok {eval : Expr → Exec Value} {decl : VarDecl} {m m₁ : Machine} {value : Value}
    (h : startValue eval decl m = .ok value m₁) :
    define eval decl m = .ok () { m₁ with frames := m₁.frames.bind decl.name value } := by
  change EStateM.bind (startValue eval decl) _ m = _
  unfold EStateM.bind
  rw [h]
  rfl

theorem define_eq_error {eval : Expr → Exec Value} {decl : VarDecl} {m m₁ : Machine} {stop : Stop}
    (h : startValue eval decl m = .error stop m₁) : define eval decl m = .error stop m₁ := by
  change EStateM.bind (startValue eval decl) _ m = _
  unfold EStateM.bind
  rw [h]

section Initialization

variable {program : Program} {fuel : Nat}

theorem initGlobals_cons_of_ok {decl : VarDecl} {m m₁ : Machine}
    (h : define (evalExpr program fuel) decl m = .ok () m₁) (decls : List VarDecl) :
    initGlobals program fuel (decl :: decls) m = initGlobals program fuel decls m₁ := by
  change EStateM.bind (define (evalExpr program fuel) decl) _ m = _
  unfold EStateM.bind
  rw [h]

/-- Making globals stops at one of them, whose value is not found; those before it are made. -/
theorem initGlobals_eq_error {decls : List VarDecl} {m m' : Machine} {stop : Stop}
    (h : initGlobals program fuel decls m = .error stop m') :
    ∃ before decl after m₁, decls = before ++ decl :: after ∧
      initGlobals program fuel before m = .ok () m₁ ∧
      startValue (evalExpr program fuel) decl m₁ = .error stop m' := by
  induction decls generalizing m with
  | nil => cases h
  | cons decl decls ih =>
    cases hstart : startValue (evalExpr program fuel) decl m with
    | error stop' m₁ =>
      refine ⟨[], decl, decls, m, rfl, rfl, ?_⟩
      change EStateM.bind (define (evalExpr program fuel) decl) _ m = _ at h
      unfold EStateM.bind at h
      rw [define_eq_error hstart] at h
      cases h
      exact hstart
    | ok value m₁ =>
      rw [initGlobals_cons_of_ok (define_eq_ok hstart)] at h
      obtain ⟨before, decl', after, m₂, rfl, hbefore, hdecl'⟩ := ih h
      refine ⟨decl :: before, decl', after, m₂, rfl, ?_, hdecl'⟩
      rw [initGlobals_cons_of_ok (define_eq_ok hstart)]
      exact hbefore

/-- A run fails while it makes the globals, or afterwards in the call. -/
theorem of_execute_eq_error {f : FunDecl} {arguments : List Value} {m m' : Machine} {stop : Stop}
    (h : Machine.execute program fuel f arguments m = .error stop m') :
    initGlobals program fuel program.globals m.cleared = .error stop m' ∨
      ∃ m₁, initGlobals program fuel program.globals m.cleared = .ok () m₁ ∧
        callFunction program fuel f arguments m₁ = .error stop m' := by
  change EStateM.bind (initGlobals program fuel program.globals) _ m.cleared = _ at h
  unfold EStateM.bind at h
  cases hinit : initGlobals program fuel program.globals m.cleared with
  | ok _ m₁ =>
    rw [hinit] at h
    exact Or.inr ⟨m₁, rfl, h⟩
  | error stop' m₁ =>
    rw [hinit] at h
    cases h
    exact Or.inl rfl

/-- A run that faults has begun, and the fault is that of what happened in the frames. -/
theorem of_run_eq_faulted {name : String} {arguments : List Value} {m m' : Machine} {e : Error}
    (h : m.run program fuel name arguments = (.faulted e, m')) :
    ∃ f, entry program name arguments = .ok f ∧
      Machine.execute program fuel f arguments m = .error (.fault e) m' := by
  unfold Machine.run at h
  cases hentry : entry program name arguments with
  | error e' => rw [hentry] at h; cases h
  | ok f =>
    rw [hentry] at h
    dsimp only at h
    cases hexecute : Machine.execute program fuel f arguments m with
    | ok value m₁ => rw [hexecute] at h; cases h
    | error stop m₁ =>
      rw [hexecute] at h
      obtain ⟨hend, rfl⟩ := Prod.mk.inj h
      obtain rfl := Ending.eq_of_ofStop_eq_faulted hend
      exact ⟨f, rfl, hexecute⟩

/-! ## Globals to come -/

variable {signatures : Signatures}

/-- When some of the globals have been made, the machine is that of a sound record, and exactly the
others are to come. -/
theorem exists_sound_of_initGlobals_eq_ok (typed : ProgramTyped signatures program)
    {before rest : List VarDecl} (hsplit : program.globals = before ++ rest) {m m₁ : Machine}
    (h : initGlobals program fuel before m.cleared = .ok () m₁) :
    ∃ L r, r.machine = m₁ ∧ Record.Sound program L r ∧ L.Awaits program rest ∧
      GlobalsTyped signatures (L.declared FrameStack.globalId) rest := by
  have hawaits : Layout.initial.Awaits program (before ++ rest) := by
    rw [← hsplit]
    exact Layout.awaits_initial program
  have htyped : GlobalsTyped signatures (Layout.initial.declared FrameStack.globalId)
      (before ++ rest) := by
    rw [← hsplit]
    exact typed.globals
  have hsafe := safe_initGlobals typed fuel hawaits htyped (.cleared m)
    (Record.sound_cleared program m)
  obtain ⟨r, hr, rfl⟩ := Logged.of_forget_eq_ok
    ((forget_initGlobals program fuel before (.cleared m)).trans h)
  rw [hr] at hsafe
  obtain ⟨L, -, ⟨hL, hrest⟩, hsound⟩ := hsafe
  exact ⟨L, r, rfl, hsound, hL, hrest⟩

/-- With all globals made, no variable is missing in a call. -/
theorem callFunction_ne_unbound (typed : ProgramTyped signatures program) {m m₁ : Machine}
    (h : initGlobals program fuel program.globals m.cleared = .ok () m₁)
    {f : FunDecl} {arguments : List Value} (hf : f ∈ program.functions)
    (haccepts : f.Accepts arguments) (fuel' : Nat) (name : String) (span : Span) (m₂ : Machine) :
    callFunction program fuel' f arguments m₁ ≠
      .error (.fault ⟨.unboundVariable name, span⟩) m₂ := by
  intro hcall
  obtain ⟨L, r, rfl, hr, hL, -⟩ :=
    exists_sound_of_initGlobals_eq_ok typed (List.append_nil _).symm h
  obtain ⟨r₂, hr₂, -⟩ := Logged.of_forget_eq_error
    ((forget_callFunction program fuel' f arguments r).trans hcall)
  have hsafe := safe_call_of_awaits_nil typed fuel' hL hf haccepts r hr
  rw [hr₂] at hsafe
  cases hsafe.1 with
  | unbound _ mem _ => cases mem

/-- A variable that is missing while a global gets its value is that of the same or of a later
global, and the initializer calls a function. -/
theorem of_startValue_eq_unbound (typed : ProgramTyped signatures program)
    {before after : List VarDecl} {decl : VarDecl} {m m₁ m₂ : Machine} {name : String} {span : Span}
    (hsplit : program.globals = before ++ decl :: after)
    (hbefore : initGlobals program fuel before m.cleared = .ok () m₁)
    (hstart : startValue (evalExpr program fuel) decl m₁ =
      .error (.fault ⟨.unboundVariable name, span⟩) m₂) :
    ∃ e, decl.initializer = some e ∧
      evalExpr program fuel e m₁ = .error (.fault ⟨.unboundVariable name, span⟩) m₂ ∧
      e.CallsDefined program ∧ ∃ d ∈ decl :: after, d.name = name := by
  obtain ⟨L, r, rfl, hr, hL, hrest⟩ := exists_sound_of_initGlobals_eq_ok typed hsplit hbefore
  cases hrest with
  | cons head_typed _ =>
    unfold startValue at hstart
    cases hinit : decl.initializer with
    | none =>
      -- a variable without initializer starts with a value of its type
      rw [hinit] at hstart
      obtain ⟨value, hzero, -⟩ := Value.zero?_of_hasValues head_typed.hasValues
      unfold Exec.zeroOf at hstart
      rw [hzero] at hstart
      cases hstart
    | some e =>
      rw [hinit] at hstart
      obtain ⟨r₂, hr₂, -⟩ := Logged.of_forget_eq_error
        ((forget_evalExpr program fuel e r).trans hstart)
      have hsafe := (safeAt typed _ fuel).expr hL.situated (head_typed.initializer e hinit) r hr
      rw [hr₂] at hsafe
      cases hsafe.1 with
      | unbound _ mem holds =>
        refine ⟨e, rfl, hstart, holds rfl, ?_⟩
        rw [List.map_reverse, List.mem_reverse, List.map_map] at mem
        exact List.mem_map.mp mem

end Initialization

/-- **A missing variable is a global that comes too late.**  Once all globals have been made, the
call of the function to be run never fails for want of a variable, however deep.  And if a run fails
for want of one, then

* it was making the globals: those before some global have been made, and the failure is that of the
  initializer of this one;
* the initializer calls a function of the program;
* and the missing variable is this global or one further down. -/
theorem unbound_only_from_global_order {p : Program} {c : Checked}
    (checked : checkProgram p = .ok c) (fuel : Nat) (name : String) (arguments : List Value)
    (m : Machine) :
    (∀ f m₁, entry c.program name arguments = .ok f →
      initGlobals c.program fuel c.program.globals m.cleared = .ok () m₁ →
      ∀ fuel' x span m₂, callFunction c.program fuel' f arguments m₁ ≠
        .error (.fault ⟨.unboundVariable x, span⟩) m₂) ∧
    ∀ x span m', m.run c.program fuel name arguments = (.faulted ⟨.unboundVariable x, span⟩, m') →
      ∃ before decl after e m₁, c.program.globals = before ++ decl :: after ∧
        decl.initializer = some e ∧
        initGlobals c.program fuel before m.cleared = .ok () m₁ ∧
        evalExpr c.program fuel e m₁ = .error (.fault ⟨.unboundVariable x, span⟩) m' ∧
        e.CallsDefined c.program ∧ ∃ d ∈ decl :: after, d.name = x := by
  obtain ⟨signatures, typed⟩ := programTyped_of_checkProgram checked
  have hcall : ∀ f m₁, entry c.program name arguments = .ok f →
      initGlobals c.program fuel c.program.globals m.cleared = .ok () m₁ →
      ∀ fuel' x span m₂, callFunction c.program fuel' f arguments m₁ ≠
        .error (.fault ⟨.unboundVariable x, span⟩) m₂ := by
    intro f m₁ hentry hinit
    obtain ⟨-, hf, haccepts⟩ := of_entry_eq_ok hentry
    exact callFunction_ne_unbound typed hinit hf haccepts
  refine ⟨hcall, ?_⟩
  intro x span m' hrun
  obtain ⟨f, hentry, hexecute⟩ := of_run_eq_faulted hrun
  rcases of_execute_eq_error hexecute with hinit | ⟨m₁, hinit, herror⟩
  · obtain ⟨before, decl, after, m₁, hsplit, hbefore, hstart⟩ := initGlobals_eq_error hinit
    obtain ⟨e, he, heval, hcalls, hlater⟩ := of_startValue_eq_unbound typed hsplit hbefore hstart
    exact ⟨before, decl, after, e, m₁, hsplit, he, hbefore, heval, hcalls, hlater⟩
  · exact absurd herror (hcall f m₁ hentry hinit fuel x span m')

/-- A program that passes the checks, although its first global is computed from the second one. -/
def early : Program where
  globals :=
    [⟨"first", ⟨.int32, false⟩, some (.call (.name "peek" .unlocated) [] .unlocated), .unlocated⟩,
    ⟨"second", ⟨.int32, false⟩, some (.number (.int32 2) "2" .unlocated), .unlocated⟩]
  functions :=
    [⟨"peek", [], .int32, .unresolved [.ret (some (.name "second" .unlocated)) .unlocated]
      .unlocated, .unlocated⟩]

/-- Its runs fail, and the failure tells of the call in an initializer and of a global further
down. -/
theorem early_run_unbound : ∃ c, checkProgram early = .ok c ∧
    (∃ m', Machine.initial.run c.program 9 "peek" [] =
      (.faulted ⟨.unboundVariable "second", .unlocated⟩, m')) ∧
    ∃ before decl after e, c.program.globals = before ++ decl :: after ∧
      decl.initializer = some e ∧ e.CallsDefined c.program ∧
      ∃ d ∈ decl :: after, d.name = "second" := by
  refine ⟨_, rfl, ⟨_, rfl⟩, ?_⟩
  obtain ⟨before, decl, after, e, -, hsplit, he, -, -, hcalls, hlater⟩ :=
    (unbound_only_from_global_order (rfl : checkProgram early = .ok _) 9 "peek" [] .initial).2
      "second" .unlocated _ rfl
  exact ⟨before, decl, after, e, hsplit, he, hcalls, hlater⟩

end TypedImp
