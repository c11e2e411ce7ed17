import TypedImp.Proofs.Execution.SafeRuns
import TypedImp.Proofs.Typing.Checking

/-!
# Type safety

A program that passed the checks does not go wrong: it returns what its types promise, and the
faults that the machine keeps for programs that should have been rejected never occur.  What can
still end a run badly is a division by zero, a function that ends without a result, and a global
that is used before it has been made.

The promise holds from any machine, so it does not matter what was run on it before; the frames are
cleared first.

* `checked_run_sound`: how a run of a checked program can end, and what its calls receive.
-/

namespace TypedImp

/-- **Checked programs do not go wrong.**  From any machine, with any arguments and any fuel:

* a value that is returned has the type that the function declares;
* a rejection comes from the look at the arguments, before anything has happened;
* a fault is a division by zero, a missing result or an unbound variable;
* so no error is an inconsistency;
* and every call on the way is of a function of the program, with as many arguments as it has
  parameters and each of the declared type.  The calls are those of the recorded run, which is the
  run itself. -/
theorem checked_run_sound {p : Program} {c : Checked} (checked : checkProgram p = .ok c)
    (fuel : Nat) (name : String) (arguments : List Value) (m : Machine) :
    (∀ value m', m.run c.program fuel name arguments = (.returned value, m') →
      ∃ f, c.function? name = some f ∧ value.ty = f.result) ∧
    (∀ e m', m.run c.program fuel name arguments = (.rejected e, m') →
      entry c.program name arguments = .error e ∧ e.stage = .compile ∧ m' = m) ∧
    (∀ e m', m.run c.program fuel name arguments = (.faulted e, m') →
      e.cause = .divisionByZero ∨ (∃ f, e.cause = .missingReturn f) ∨
        ∃ x, e.cause = .unboundVariable x) ∧
    (∀ e m', m.run c.program fuel name arguments = (.rejected e, m') ∨
        m.run c.program fuel name arguments = (.faulted e, m') →
      ∀ message, e.cause ≠ .inconsistency message) ∧
    ((m.record c.program fuel name arguments).1,
        (m.record c.program fuel name arguments).2.machine) = m.run c.program fuel name arguments ∧
    ∀ f values, .call f values ∈ (m.record c.program fuel name arguments).2.events →
      f ∈ c.program.functions ∧ values.length = f.parameters.length ∧ f.Accepts values := by
  obtain ⟨signatures, typed⟩ := programTyped_of_checkProgram checked
  have hcases := run_cases typed fuel name arguments m
  have hrejected : ∀ e m', m.run c.program fuel name arguments = (.rejected e, m') →
      entry c.program name arguments = .error e ∧ e.stage = .compile ∧ m' = m := by
    intro e m' hrun
    rw [hrun] at hcases
    rcases hcases with ⟨_, heq, hentry⟩ | ⟨_, _, heq, -⟩ | ⟨_, _, heq, -⟩ | ⟨_, heq⟩ <;> cases heq
    exact ⟨hentry, stage_of_entry_eq_error hentry, rfl⟩
  have hfaulted : ∀ e m', m.run c.program fuel name arguments = (.faulted e, m') →
      e.Unforeseen := by
    intro e m' hrun
    rw [hrun] at hcases
    rcases hcases with ⟨_, heq, -⟩ | ⟨_, _, heq, -⟩ | ⟨_, _, heq, hcause⟩ | ⟨_, heq⟩ <;> cases heq
    exact hcause
  refine ⟨?_, hrejected, hfaulted, ?_, Machine.record_eq_run _ _ _ _ _, ?_⟩
  · intro value m' hrun
    rw [hrun] at hcases
    rcases hcases with ⟨_, heq, -⟩ | ⟨_, _, heq, hty⟩ | ⟨_, _, heq, -⟩ | ⟨_, heq⟩ <;> cases heq
    exact hty
  · rintro e m' (hrun | hrun) message hcause
    · have hstage := (hrejected e m' hrun).2.1
      rw [Error.stage, hcause] at hstage
      cases hstage
    · rcases hfaulted e m' hrun with h | ⟨_, h⟩ | ⟨_, h⟩ <;> rw [hcause] at h <;> cases h
  · intro f values hmem
    obtain ⟨before, after, hsplit⟩ := List.append_of_mem hmem
    obtain ⟨hf, haccepts⟩ := lawful_record typed fuel name arguments m before _ after hsplit
    exact ⟨hf, haccepts.length_eq, haccepts⟩

/-- A program whose global is computed by a call, and whose main function loops below it. -/
def halving : Program where
  globals := [⟨"limit", ⟨.int32, false⟩, some (.call (.name "half" .unlocated)
    [.number (.int32 9) "9" .unlocated] .unlocated), .unlocated⟩]
  functions :=
    [⟨"half", [⟨"n", ⟨.int32, false⟩, .unlocated⟩], .int32,
      .unresolved [.ret (some (.binary .div (.name "n" .unlocated)
        (.number (.int32 2) "2" .unlocated) .unlocated)) .unlocated] .unlocated, .unlocated⟩,
    ⟨"main", [⟨"step", ⟨.int32, false⟩, .unlocated⟩], .bool,
      .unresolved
        [.define ⟨"i", ⟨.int32, true⟩, none, .unlocated⟩,
        .whileDo (.binary .lt (.name "i" .unlocated) (.name "limit" .unlocated) .unlocated)
          (.unresolved [.assign "i" (.binary .add (.name "i" .unlocated)
            (.name "step" .unlocated) .unlocated) .unlocated] .unlocated) .unlocated,
        .ret (some (.binary .eq (.name "i" .unlocated) (.name "limit" .unlocated) .unlocated))
          .unlocated]
        .unlocated, .unlocated⟩]

/-- The program passes the checks, and the value that its main function gives back has the type that
was declared for it. -/
theorem halving_run_sound : ∃ c, checkProgram halving = .ok c ∧
    (∃ m', Machine.initial.run c.program 20 "main" [.int32 2] = (.returned (.bool true), m')) ∧
      ∃ f, c.function? "main" = some f ∧ (Value.bool true).ty = f.result := by
  refine ⟨_, rfl, ⟨_, rfl⟩, ?_⟩
  have hsound := checked_run_sound (rfl : checkProgram halving = .ok _) 20 "main" [.int32 2]
    .initial
  exact hsound.1 _ _ rfl

end TypedImp
