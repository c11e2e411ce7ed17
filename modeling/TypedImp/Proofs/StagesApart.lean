import TypedImp.Proofs.Places.Pipeline

/-!
# The two stages of failure never mix

A source text fails in one of three phases: while it is compiled, while the function to run and its
arguments are looked at, or while the program runs.  The stage of an error is read off its cause and
not off the phase it came up in; that the two agree is what is shown here.

## What there is to see from outside

Only the report and the printed lines tell a caller what happened.  A report with an error of a
running program means that the run had begun, and then there is exactly one error in it.  Any other
report means that it had not, and then nothing was printed.

* `Phase`, `FailedIn`: the phases, and what a failure in each of them gives.
* `failedIn_of_runSource`, `FailedIn.phase_unique`: every failure has one phase.
* `stages_never_mix`: the stages of all errors.
-/

namespace TypedImp

/-- Where the way from a source text to a result may fail. -/
inductive Phase where
  | compiling
  /-- Looking for the function to run and at its arguments. -/
  | validating
  /-- Making the globals and calling the function. -/
  | executing
deriving DecidableEq, Repr

/-- A failure in a phase, with the report and the printed lines that it gives. -/
inductive FailedIn (fuel : Nat) (source file name : String) (arguments : List Value) :
    Phase → Report → Array String → Prop
  | compiling {report : Report} (compiled : compile source file = .error report) :
    FailedIn fuel source file name arguments .compiling report #[]
  | validating {c : Checked} {e : Error} (compiled : compile source file = .ok c)
    (refused : entry c.program name arguments = .error e) :
    FailedIn fuel source file name arguments .validating [.ofError e file source] #[]
  | initializing {c : Checked} {f : FunDecl} {e : Error} {m : Machine}
    (compiled : compile source file = .ok c) (found : entry c.program name arguments = .ok f)
    (raised : initGlobals c.program fuel c.program.globals .initial = .error (.fault e) m) :
    FailedIn fuel source file name arguments .executing [.ofError e file source] m.output
  | calling {c : Checked} {f : FunDecl} {e : Error} {m₁ m : Machine}
    (compiled : compile source file = .ok c) (found : entry c.program name arguments = .ok f)
    (made : initGlobals c.program fuel c.program.globals .initial = .ok () m₁)
    (raised : callFunction c.program fuel f arguments m₁ = .error (.fault e) m) :
    FailedIn fuel source file name arguments .executing [.ofError e file source] m.output

/-! ## Stages of reports -/

/-- The stage of a diagnostic is that of its error. -/
theorem Diagnostic.stage_ofError (e : Error) (file source : String) :
    (Diagnostic.ofError e file source).stage = e.stage := by
  unfold Diagnostic.ofError
  dsimp only
  split <;> rfl

/-- Compiling finds errors of the first stage, and if it fails it finds some. -/
theorem compile_eq_error {source file : String} {report : Report}
    (h : compile source file = .error report) :
    ∃ errors, analyze source = .error errors ∧ report = Report.ofErrors errors file source ∧
      errors ≠ [] ∧ ∀ e ∈ errors, e.At .compile (Span.Points source.toList) := by
  have hplaces := places_of_analyze source
  unfold compile at h
  cases hanalyze : analyze source with
  | ok c => rw [hanalyze] at h; cases h
  | error errors =>
    rw [hanalyze] at h hplaces
    cases h
    exact ⟨errors, rfl, rfl, hplaces.1, hplaces.2.2⟩

theorem compile_eq_ok {source file : String} {c : Checked} (h : compile source file = .ok c) :
    c.program.AllSpans (Span.Covers source.toList) := by
  have hplaces := places_of_analyze source
  unfold compile at h
  cases hanalyze : analyze source with
  | error errors => rw [hanalyze] at h; cases h
  | ok c' =>
    rw [hanalyze] at h hplaces
    cases h
    exact hplaces

/-- Compiling reports errors of the first stage only, and at least one. -/
theorem stage_of_compile_eq_error {source file : String} {report : Report}
    (h : compile source file = .error report) :
    report ≠ [] ∧ ∀ d ∈ report, d.stage = .compile := by
  obtain ⟨errors, -, rfl, hne, hat⟩ := compile_eq_error h
  refine ⟨fun hnil => hne (List.map_eq_nil_iff.mp hnil), ?_⟩
  intro d hd
  obtain ⟨e, he, rfl⟩ := List.mem_map.mp hd
  rw [Diagnostic.stage_ofError]
  exact (hat e he).stage

/-! ## Phases -/

section

variable {fuel : Nat} {source file name : String} {arguments : List Value} {report : Report}
  {output : Array String}

/-- Once a run has begun it does not end with an error of the first stage. -/
theorem run_ne_rejected {program : Program} {f : FunDecl}
    (hentry : entry program name arguments = .ok f) (m : Machine) (e : Error) :
    (m.run program fuel name arguments).1 ≠ .rejected e := by
  intro hrun
  have hspans := Program.allSpans_of_forall (P := fun _ => True) (fun _ => trivial) program
  have hf : f.AllSpans fun _ => True := hspans.functions f (of_entry_eq_ok hentry).2.1
  rw [Machine.run, hentry] at hrun
  dsimp only at hrun
  cases hexecute : Machine.execute program fuel f arguments m with
  | ok value m' => rw [hexecute] at hrun; cases hrun
  | error stop m' =>
    rw [hexecute] at hrun
    cases stop with
    | exhausted => cases hrun
    | fault e' =>
      have hstage := (at_of_execute hspans hf hexecute).stage
      simp only [Ending.ofStop, Ending.ofError, hstage] at hrun
      cases hrun

/-- Every failure comes from one of the phases. -/
theorem failedIn_of_runSource
    (h : runSource fuel source file name arguments = (.failed report, output)) :
    ∃ phase, FailedIn fuel source file name arguments phase report output := by
  unfold runSource at h
  cases hcompile : compile source file with
  | error report' =>
    rw [hcompile] at h
    cases h
    exact ⟨.compiling, .compiling hcompile⟩
  | ok c =>
    rw [hcompile] at h
    dsimp only at h
    cases hentry : entry c.program name arguments with
    | error e =>
      rw [Machine.run, hentry] at h
      cases h
      exact ⟨.validating, .validating hcompile hentry⟩
    | ok f =>
      cases hrun : Machine.initial.run c.program fuel name arguments with
      | mk ending m =>
        rw [hrun] at h
        cases ending with
        | returned value => cases h
        | exhausted => cases h
        | rejected e => exact absurd (congrArg Prod.fst hrun) (run_ne_rejected hentry .initial e)
        | faulted e =>
          cases h
          obtain ⟨f', hentry', hexecute⟩ := of_run_eq_faulted hrun
          obtain rfl : f = f' := by rw [hentry] at hentry'; exact Except.ok.inj hentry'
          rcases of_execute_eq_error hexecute with hinit | ⟨m₁, hinit, hcall⟩
          · exact ⟨.executing, .initializing hcompile hentry hinit⟩
          · exact ⟨.executing, .calling hcompile hentry hinit hcall⟩

namespace FailedIn

variable {phase phase' : Phase}

/-- A failure comes from one phase only. -/
theorem phase_unique (h : FailedIn fuel source file name arguments phase report output)
    {report' : Report} {output' : Array String}
    (h' : FailedIn fuel source file name arguments phase' report' output') : phase' = phase := by
  cases h with
  | compiling compiled =>
    cases h' with
    | compiling => rfl
    | validating compiled' | initializing compiled' | calling compiled' =>
      rw [compiled] at compiled'
      cases compiled'
  | validating compiled refused =>
    cases h' with
    | compiling compiled' =>
      rw [compiled] at compiled'
      cases compiled'
    | validating => rfl
    | initializing compiled' found | calling compiled' found =>
      rw [compiled] at compiled'
      cases compiled'
      rw [refused] at found
      cases found
  | initializing compiled found | calling compiled found =>
    cases h' with
    | compiling compiled' =>
      rw [compiled] at compiled'
      cases compiled'
    | validating compiled' refused =>
      rw [compiled] at compiled'
      cases compiled'
      rw [found] at refused
      cases refused
    | initializing => rfl
    | calling => rfl

/-- The stage of the errors tells whether the run had begun. -/
theorem stage (h : FailedIn fuel source file name arguments phase report output) :
    ∀ d ∈ report, d.stage = if phase = .executing then .runtime else .compile := by
  cases h with
  | compiling compiled => exact (stage_of_compile_eq_error compiled).2
  | validating compiled refused =>
    rw [List.forall_mem_singleton, Diagnostic.stage_ofError]
    exact stage_of_entry_eq_error refused
  | initializing compiled found raised =>
    rw [List.forall_mem_singleton, Diagnostic.stage_ofError]
    exact (at_of_initGlobals (compile_eq_ok compiled) raised).stage
  | calling compiled found made raised =>
    have hspans := compile_eq_ok compiled
    rw [List.forall_mem_singleton, Diagnostic.stage_ofError]
    exact (at_of_callFunction hspans (hspans.functions _ (of_entry_eq_ok found).2.1) raised).stage

/-- After compiling there is one error. -/
theorem single (h : FailedIn fuel source file name arguments phase report output)
    (hphase : phase ≠ .compiling) : ∃ d, report = [d] := by
  cases h with
  | compiling => exact absurd rfl hphase
  | validating | initializing | calling => exact ⟨_, rfl⟩

/-- Nothing is printed before the run begins. -/
theorem silent (h : FailedIn fuel source file name arguments phase report output)
    (hphase : phase ≠ .executing) : output = #[] := by
  cases h with
  | compiling | validating => rfl
  | initializing | calling => exact absurd rfl hphase

/-- A report has errors of a running program if and only if the run had begun. -/
theorem hasRuntimeErrors_iff (h : FailedIn fuel source file name arguments phase report output) :
    report.hasRuntimeErrors = true ↔ phase = .executing := by
  rw [Report.hasRuntimeErrors, List.any_eq_true]
  constructor
  · rintro ⟨d, hd, hruntime⟩
    by_contra hphase
    rw [h.stage d hd, if_neg hphase] at hruntime
    exact absurd hruntime (by decide)
  · intro hphase
    obtain ⟨d, rfl⟩ := h.single (by rw [hphase]; decide)
    have hstage := h.stage d List.mem_cons_self
    rw [if_pos hphase] at hstage
    exact ⟨d, List.mem_cons_self, decide_eq_true hstage⟩

end FailedIn

end

/-- **Errors of compiling and of running never mix.**  A source that does not compile has at least
one error, and all its errors are of the first stage; the checker's own faults, such as a `return`
outside of all functions, are never among them.  A source that fails to run fails in one phase.
Before the run begins, nothing is printed and all errors are of the first stage; from then on there
is one error and it is of the other stage.  In no state of the machine is a run rejected once its
function and its arguments were accepted. -/
theorem stages_never_mix (source file : String) :
    (∀ report, compile source file = .error report →
      report ≠ [] ∧ ∀ d ∈ report, d.stage = .compile) ∧
    (∀ errors, analyze source = .error errors →
      ∀ e ∈ errors, ∀ message, e.cause ≠ .inconsistency message) ∧
    (∀ fuel name arguments report output,
      runSource fuel source file name arguments = (.failed report, output) →
      ∃ phase, FailedIn fuel source file name arguments phase report output ∧
        (∀ phase', FailedIn fuel source file name arguments phase' report output →
          phase' = phase) ∧
        (phase ≠ .compiling → ∃ d, report = [d]) ∧
        (phase ≠ .executing → output = #[] ∧ ∀ d ∈ report, d.stage = .compile) ∧
        (report.hasRuntimeErrors = true ↔ phase = .executing)) ∧
    ∀ program fuel name arguments f (m : Machine), entry program name arguments = .ok f →
      ∀ e, (m.run program fuel name arguments).1 ≠ .rejected e := by
  refine ⟨fun report hcompile => stage_of_compile_eq_error hcompile, ?_, ?_,
    fun program fuel name arguments f m hentry e => run_ne_rejected hentry m e⟩
  · intro errors hanalyze e he message hcause
    have hplaces := places_of_analyze source
    rw [hanalyze] at hplaces
    have hstage := (hplaces.2.2 e he).stage
    rw [Error.stage, hcause] at hstage
    cases hstage
  · intro fuel name arguments report output hrun
    obtain ⟨phase, hfailed⟩ := failedIn_of_runSource hrun
    refine ⟨phase, hfailed, fun phase' hfailed' => hfailed.phase_unique hfailed',
      hfailed.single, fun hphase => ⟨hfailed.silent hphase, ?_⟩, hfailed.hasRuntimeErrors_iff⟩
    intro d hd
    rw [hfailed.stage d hd, if_neg hphase]

end TypedImp
