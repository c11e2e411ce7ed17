import TypedImp.Proofs.Execution.Conduct
import TypedImp.Proofs.GlobalOrder

/-!
# Runs do not see one another

A machine is used for any number of runs, one after the other, and every run may end in any way:
with a value, with an error before anything happened, with an error in the middle of a global or of
a call, or for want of fuel.  The next run does not notice.  It ends as it would on a machine that
has never been used, and prints the same lines behind those that are there.

## What is left behind

A run that is turned away leaves everything as it was.  Any other run clears the frames first, so
what an earlier run left in them is gone; and it leaves only the frame of the globals itself,
because every frame that was entered is left again, however the computation in it ended.  In the
frame of the globals stand the names of those globals that were made.

* `simulation_printed`: lines printed before do not matter.
* `execute_agree`: a run on a used machine and on a new one.
* `holds_of_initGlobals_eq_ok`: making globals adds their names.
* `MadeUpTo`, `holds_of_execute`: how far making globals came, and what is left of it.
* `Machine.runAll`, `runAll_eq_fresh`: runs one after the other.
* `runs_are_independent`: all of it.
-/

namespace TypedImp

/-! ## Lines printed before -/

/-- Machines that differ only in lines printed at the beginning are not told apart. -/
theorem simulation_printed (printed : Array String) :
    Simulation fun _ m m' => m.frames = m'.frames ∧ m.output = printed ++ m'.output where
  get? := fun h name => by rw [h.1]
  set? := fun {_ m m'} h name value => by
    rw [h.1]
    cases m'.frames.set? name value with
    | none => exact Or.inl ⟨rfl, rfl⟩
    | some s => exact Or.inr ⟨s, s, rfl, rfl, rfl, h.2⟩
  bind := fun h name value => ⟨congrArg (·.bind name value) h.1, h.2⟩
  print := fun h lines => ⟨h.1, by rw [h.2]; exact Array.toList_inj.mp (by simp)⟩
  call := fun h => ⟨congrArg (·.push FrameStack.globalId) h.1, h.2⟩
  block := fun h => ⟨congrArg (fun s : FrameStack => s.push s.active) h.1, h.2⟩
  leave := fun h => ⟨congrArg FrameStack.pop h.1, h.2⟩

/-- The part of a run that happens in the frames, on any machine and on a new one: the ends are the
same, and the lines printed before stay in front. -/
theorem execute_agree (program : Program) (fuel : Nat) (f : FunDecl) (arguments : List Value)
    (m : Machine) :
    Agree False (fun m' m₀ => m'.frames = m₀.frames ∧ m'.output = m.output ++ m₀.output)
      (Machine.execute program fuel f arguments m)
      (Machine.execute program fuel f arguments .initial) := by
  have hat : FollowsAt False
      (fun _ m' m₀ => m'.frames = m₀.frames ∧ m'.output = m.output ++ m₀.output) program fuel
      fuel :=
    (simulation_printed m.output).followsAt (Or.inl rfl)
  have hfollows : Follows False
      (fun _ m' m₀ => m'.frames = m₀.frames ∧ m'.output = m.output ++ m₀.output) 1
      (do Logged.initGlobals program fuel program.globals
          Logged.callFunction program fuel f arguments)
      (do initGlobals program fuel program.globals
          callFunction program fuel f arguments) :=
    Follows.bind ((simulation_printed m.output).initGlobals hat 0 program.globals) fun _ =>
      hat.call 1 f arguments
  have hagree := hfollows (.cleared m) .initial ⟨rfl, Array.append_empty.symm⟩
  rw [← forget_execute program fuel f arguments ⟨m, []⟩]
  exact hagree

/-- **A used machine is as good as a new one.**  A run ends in the same way on both, and prints the
same lines. -/
theorem run_eq_fresh (program : Program) (fuel : Nat) (name : String) (arguments : List Value)
    (m : Machine) :
    (m.run program fuel name arguments).1 =
        (Machine.initial.run program fuel name arguments).1 ∧
      (m.run program fuel name arguments).2.output =
        m.output ++ (Machine.initial.run program fuel name arguments).2.output := by
  unfold Machine.run
  cases entry program name arguments with
  | error error => exact ⟨rfl, Array.append_empty.symm⟩
  | ok f =>
    have hagree := execute_agree program fuel f arguments m
    dsimp only
    generalize Machine.execute program fuel f arguments m = used at hagree ⊢
    generalize Machine.execute program fuel f arguments .initial = fresh at hagree ⊢
    cases hagree with
    | ok h => exact ⟨rfl, h.2⟩
    | error h => exact ⟨rfl, h.2⟩
    | spent h => exact h.elim

/-! ## The frame of the globals -/

/-- The names of the globals in the order in which they were made. -/
def FrameStack.globalNames (s : FrameStack) : List String := (s.globals.map Prod.fst).reverse

/-- Only the frame of the globals is there, and these are the globals made. -/
structure FrameStack.Holds (s : FrameStack) (decls : List VarDecl) : Prop where
  locals : s.locals.size = 0
  names : s.globalNames = decls.map VarDecl.name

theorem FrameStack.holds_initial : FrameStack.initial.Holds [] := ⟨rfl, rfl⟩

/-- What keeps the outline keeps the globals that were made. -/
theorem FrameStack.Holds.of_sameOutline {m m' : Machine} {decls : List VarDecl}
    (h : m.frames.Holds decls) (houtline : m.SameOutline m') : m'.frames.Holds decls := by
  refine ⟨houtline.locals.trans h.locals, ?_⟩
  rw [← h.names, FrameStack.globalNames, houtline.globals, FrameStack.globalNames]

/-- With no other frame there, a new variable is a global. -/
theorem FrameStack.Holds.bind {s : FrameStack} {decls : List VarDecl} (h : s.Holds decls)
    (decl : VarDecl) (value : Value) : (s.bind decl.name value).Holds (decls ++ [decl]) := by
  have hactive : s.active = 1 := congrArg (· + 1) h.locals
  have hbind : s.bind decl.name value = { s with globals := (decl.name, value) :: s.globals } := by
    rw [FrameStack.bind, hactive, FrameStack.modify]
  rw [hbind]
  refine ⟨h.locals, ?_⟩
  have hnames : (s.globals.map Prod.fst).reverse = decls.map VarDecl.name := h.names
  simp only [FrameStack.globalNames, List.map_cons, List.reverse_cons, List.map_append, hnames,
    List.map_nil]

section Outline

variable (program : Program) (fuel : Nat)

/-- Evaluation keeps the outline in every program. -/
theorem conductsAt_any : ConductsAt (fun _ => True) program fuel :=
  conductsAt (Program.allSpans_of_forall (fun _ => trivial) program) fuel

theorem conducts_startValue_any (decl : VarDecl) :
    Exec.Conducts 0 (Error.At .runtime fun _ => True) (startValue (evalExpr program fuel) decl) :=
  conducts_startValue trivial fun _ _ =>
    (conductsAt_any program fuel).expr (Expr.allSpans_of_forall (fun _ => trivial) _)

theorem conducts_callFunction_any (f : FunDecl) (arguments : List Value) :
    Exec.Conducts 0 (Error.At .runtime fun _ => True) (callFunction program fuel f arguments) :=
  (conductsAt_any program fuel).call ⟨fun _ _ => trivial,
    Stmt.forall_allSpans_of_forall (fun _ => trivial) f.body.body, trivial⟩ arguments

variable {program fuel}

/-- Making globals adds their names, one after the other. -/
theorem holds_of_initGlobals_eq_ok {decls made : List VarDecl} {m m' : Machine}
    (hm : m.frames.Holds made) (h : initGlobals program fuel decls m = .ok () m') :
    m'.frames.Holds (made ++ decls) := by
  induction decls generalizing made m with
  | nil =>
    cases h
    rwa [List.append_nil]
  | cons decl decls ih =>
    cases hstart : startValue (evalExpr program fuel) decl m with
    | error stop m₁ =>
      change EStateM.bind (define (evalExpr program fuel) decl) _ m = _ at h
      unfold EStateM.bind at h
      rw [define_eq_error hstart] at h
      cases h
    | ok value m₁ =>
      have houtline := (conducts_startValue_any program fuel decl).outline_of_ok
        (Nat.zero_le _) hstart
      rw [initGlobals_cons_of_ok (define_eq_ok hstart)] at h
      rw [List.append_cons]
      exact ih ((hm.of_sameOutline houtline).bind decl value) h

end Outline

/-! ## How far a run came -/

/-- How far making globals comes on a cleared machine: to the last of them, or up to one whose value
is not found. -/
inductive MadeUpTo (program : Program) (fuel : Nat) (m : Machine) : List VarDecl → Prop
  | all {m₁ : Machine} (made : initGlobals program fuel program.globals m.cleared = .ok () m₁) :
    MadeUpTo program fuel m program.globals
  | stopped {before after : List VarDecl} {decl : VarDecl} {m₁ m₂ : Machine} {stop : Stop}
    (split : program.globals = before ++ decl :: after)
    (made : initGlobals program fuel before m.cleared = .ok () m₁)
    (missing : startValue (evalExpr program fuel) decl m₁ = .error stop m₂) :
    MadeUpTo program fuel m before

/-- However a run ends that has begun, it leaves the globals that were made and no other frame. -/
theorem holds_of_execute (program : Program) (fuel : Nat) (f : FunDecl) (arguments : List Value)
    (m : Machine) :
    ∃ made, MadeUpTo program fuel m made ∧
      ((∃ m₁, initGlobals program fuel program.globals m.cleared = .ok () m₁) →
        made = program.globals) ∧
      match Machine.execute program fuel f arguments m with
      | .ok _ m' | .error _ m' => m'.frames.Holds made := by
  have hexecute : Machine.execute program fuel f arguments m =
      EStateM.bind (initGlobals program fuel program.globals)
        (fun _ => callFunction program fuel f arguments) m.cleared := rfl
  rw [hexecute, EStateM.bind]
  cases hinit : initGlobals program fuel program.globals m.cleared with
  | ok _ m₁ =>
    have hm₁ : m₁.frames.Holds ([] ++ program.globals) :=
      holds_of_initGlobals_eq_ok FrameStack.holds_initial hinit
    refine ⟨program.globals, .all hinit, fun _ => rfl, ?_⟩
    have hcall := conducts_callFunction_any program fuel f arguments m₁ (Nat.zero_le _)
    dsimp only
    generalize callFunction program fuel f arguments m₁ = result at hcall ⊢
    cases result with
    | ok value m' => exact hm₁.of_sameOutline hcall
    | error stop m' => exact hm₁.of_sameOutline hcall.1
  | error stop m' =>
    obtain ⟨before, decl, after, m₁, hsplit, hbefore, hstart⟩ := initGlobals_eq_error hinit
    have hm₁ : m₁.frames.Holds ([] ++ before) :=
      holds_of_initGlobals_eq_ok FrameStack.holds_initial hbefore
    refine ⟨before, .stopped hsplit hbefore hstart, nofun, ?_⟩
    exact hm₁.of_sameOutline
      ((conducts_startValue_any program fuel decl).of_error (Nat.zero_le _) hstart).1

/-! ## Runs one after the other -/

/-- A function to be run, with its arguments and the fuel for it. -/
structure Invocation where
  name : String
  arguments : List Value
  fuel : Nat

/-- Runs functions of a program one after the other, on one machine. -/
def Machine.runAll (program : Program) : List Invocation → Machine → List Ending × Machine
  | [], m => ([], m)
  | i :: is, m =>
    let (ending, m) := m.run program i.fuel i.name i.arguments
    let (endings, m) := runAll program is m
    (ending :: endings, m)

/-- The run of a function on a machine that has never been used. -/
def Invocation.fresh (program : Program) (i : Invocation) : Ending × Machine :=
  Machine.initial.run program i.fuel i.name i.arguments

/-- Runs one after the other are as many runs on new machines. -/
theorem runAll_eq_fresh (program : Program) (is : List Invocation) (m : Machine) :
    (m.runAll program is).1 = is.map (fun i => (i.fresh program).1) ∧
      (m.runAll program is).2.output.toList =
        m.output.toList ++ is.flatMap (fun i => (i.fresh program).2.output.toList) := by
  induction is generalizing m with
  | nil => exact ⟨rfl, (List.append_nil _).symm⟩
  | cons i is ih =>
    obtain ⟨hending, houtput⟩ := run_eq_fresh program i.fuel i.name i.arguments m
    obtain ⟨hendings, houtputs⟩ := ih (m.run program i.fuel i.name i.arguments).2
    refine ⟨?_, ?_⟩
    · rw [List.map_cons, ← hendings]
      exact congrArg (· :: _) hending
    · rw [List.flatMap_cons, ← List.append_assoc]
      refine houtputs.trans ?_
      rw [houtput, Array.toList_append]
      rfl

/-- **Runs are independent, and a run that is turned away has not happened.**  On every machine,
whatever was run on it before and however that ended, and for every function, arguments and fuel:

* the run ends as on a machine that has never been used, and prints the same lines behind those
  that are there; so do any number of runs one after the other;
* if the function is not found or its arguments do not fit, the machine stays exactly as it was;
* otherwise only the frame of the globals is left, next to the one that zero stands for, and it
  holds the names of the globals that were made, in the order of the source: up to one whose value
  was not found, and all of them if there was none. -/
theorem runs_are_independent (program : Program) (m : Machine) (name : String)
    (arguments : List Value) (fuel : Nat) :
    (m.run program fuel name arguments).1 =
        (Machine.initial.run program fuel name arguments).1 ∧
      (m.run program fuel name arguments).2.output =
        m.output ++ (Machine.initial.run program fuel name arguments).2.output ∧
      (∀ is : List Invocation,
        (m.runAll program is).1 = is.map (fun i => (i.fresh program).1) ∧
          (m.runAll program is).2.output.toList =
            m.output.toList ++ is.flatMap (fun i => (i.fresh program).2.output.toList)) ∧
      (∀ e, entry program name arguments = .error e →
        m.run program fuel name arguments = (.rejected e, m)) ∧
      ∀ f, entry program name arguments = .ok f →
        (m.run program fuel name arguments).2.frames.depth = 2 ∧
          ∃ made, MadeUpTo program fuel m made ∧
            (m.run program fuel name arguments).2.frames.globalNames = made.map VarDecl.name ∧
            ((∃ m₁, initGlobals program fuel program.globals m.cleared = .ok () m₁) →
              made = program.globals) := by
  obtain ⟨hending, houtput⟩ := run_eq_fresh program fuel name arguments m
  refine ⟨hending, houtput, fun is => runAll_eq_fresh program is m, ?_, ?_⟩
  · intro e hentry
    rw [Machine.run, hentry]
  · intro f hentry
    obtain ⟨made, hmade, hall, hholds⟩ := holds_of_execute program fuel f arguments m
    have hleft : (m.run program fuel name arguments).2.frames.Holds made := by
      rw [Machine.run, hentry]
      dsimp only
      generalize Machine.execute program fuel f arguments m = result at hholds ⊢
      cases result with
      | ok value m' => exact hholds
      | error stop m' => exact hholds
    exact ⟨congrArg (· + 2) hleft.locals, made, hmade, hleft.names, hall⟩

end TypedImp
