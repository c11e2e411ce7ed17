import TypedImp.Proofs.Grammar.SameWords
import TypedImp.Proofs.Highlighting
import TypedImp.Proofs.Relabel.Checking
import TypedImp.Proofs.Relabel.Execution

/-!
# Layout and comments never change meaning

Blanks, comments and line breaks are not tokens, so two texts may have the same tokens at different
places.  From the tokens on, places are carried through all phases: into trees, into checked trees
and into errors.  Here the phases are put together.  Parsing is compared token by token; checking
and running are compared with what they do to a tree without places, which is one and the same tree
for both texts.

* `CheckedAlike`, `checkedAlike_of_erase`: checking programs that differ in places.
* `run_alike_of_erase`: running them.
* `SameMeaning`: what two texts have in common.
* `layout_never_changes_meaning`: **texts that read the same mean the same**.
-/

namespace TypedImp

/-! ## Checking -/

/-- Two outcomes of checking: programs that differ in places and have the same scopes, or errors
with the same causes in the same order. -/
inductive CheckedAlike : Except (List Error) Checked → Except (List Error) Checked → Prop
  | ok {c c' : Checked} (same : c.program.erase = c'.program.erase)
    (scopes_eq : c.scopes = c'.scopes) : CheckedAlike (.ok c) (.ok c')
  | error {errors errors' : List Error}
    (causes_eq : errors.map Error.cause = errors'.map Error.cause) :
    CheckedAlike (.error errors) (.error errors')

/-- Errors that can be moved to the same place have the same cause. -/
theorem cause_eq_of_relabel {r : Relabeling} {e e' : Error} (h : e.relabel r = e'.relabel r) :
    e.cause = e'.cause := by
  rw [Error.relabel, Error.relabel, Error.mk.injEq] at h
  exact h.1

theorem causes_eq_of_relabel {r : Relabeling} {errors errors' : List Error}
    (h : errors.map (Error.relabel r) = errors'.map (Error.relabel r)) :
    errors.map Error.cause = errors'.map Error.cause := by
  have hcauses := congrArg (List.map Error.cause) h
  rwa [List.map_map, List.map_map] at hcauses

theorem checkedAlike_of_erase {p p' : Program} (h : p.erase = p'.erase) :
    CheckedAlike (checkProgram p) (checkProgram p') := by
  have hp := checkProgram_relabel (r := .unplaced) rfl p
  have hp' := checkProgram_relabel (r := .unplaced) rfl p'
  rw [← Program.erase_eq_relabel] at hp hp'
  rw [h, hp'] at hp
  -- both outcomes are that of the tree without places, up to places
  cases hc : checkProgram p with
  | ok c =>
    cases hc' : checkProgram p' with
    | ok c' =>
      rw [hc, hc'] at hp
      obtain ⟨hprogram, hscopes⟩ := Checked.mk.inj (Except.ok.inj hp)
      refine .ok ?_ hscopes.symm
      rw [Program.erase_eq_relabel, Program.erase_eq_relabel, hprogram]
    | error errors' => rw [hc, hc'] at hp; cases hp
  | error errors =>
    cases hc' : checkProgram p' with
    | ok c' => rw [hc, hc'] at hp; cases hp
    | error errors' =>
      rw [hc, hc'] at hp
      exact .error (causes_eq_of_relabel (Except.error.inj hp).symm)

/-! ## Running -/

/-- Two ends of a run that are the same but for the place of an error. -/
inductive Ending.Alike : Ending → Ending → Prop
  | returned (value : Value) : Alike (.returned value) (.returned value)
  | rejected {e e' : Error} (cause_eq : e.cause = e'.cause) : Alike (.rejected e) (.rejected e')
  | faulted {e e' : Error} (cause_eq : e.cause = e'.cause) : Alike (.faulted e) (.faulted e')
  | exhausted : Alike .exhausted .exhausted

theorem Ending.alike_of_relabel {r : Relabeling} {ending ending' : Ending}
    (h : ending.relabel r = ending'.relabel r) : ending.Alike ending' := by
  cases ending with
  | returned value =>
    cases ending' with
    | returned value' => cases h; exact .returned value
    | _ => cases h
  | rejected e =>
    cases ending' with
    | rejected e' =>
      have herror : e.relabel r = e'.relabel r := by injection h
      exact .rejected (cause_eq_of_relabel herror)
    | _ => cases h
  | faulted e =>
    cases ending' with
    | faulted e' =>
      have herror : e.relabel r = e'.relabel r := by injection h
      exact .faulted (cause_eq_of_relabel herror)
    | _ => cases h
  | exhausted =>
    cases ending' with
    | exhausted => exact .exhausted
    | _ => cases h

/-- Programs that differ in places run alike: to the same machine, and to ends that are the same but
for the place of an error. -/
theorem run_alike_of_erase {p p' : Program} (h : p.erase = p'.erase) (fuel : Nat) (name : String)
    (arguments : List Value) (m : Machine) :
    (m.run p fuel name arguments).1.Alike (m.run p' fuel name arguments).1 ∧
      (m.run p fuel name arguments).2 = (m.run p' fuel name arguments).2 := by
  have hrun : ∀ q : Program, m.run q.erase fuel name arguments =
      ((m.run q fuel name arguments).1.relabel .unplaced, (m.run q fuel name arguments).2) := by
    intro q
    rw [Program.erase_eq_relabel]
    exact Machine.run_relabel rfl rfl (Program.function?_relabel .unplaced q) fuel name arguments m
  have hp := hrun p
  rw [h, hrun p'] at hp
  exact ⟨Ending.alike_of_relabel (congrArg Prod.fst hp).symm, (congrArg Prod.snd hp).symm⟩

/-! ## From source to result -/

/-- Two results of running two sources: the same value; or reports of errors that the sources raise,
with the same causes in the same order; or no end in sight for both. -/
inductive ResultsAlike (fuel : Nat) (source source' file file' name : String)
    (arguments : List Value) : Result → Result → Prop
  | value (value : Value) :
    ResultsAlike fuel source source' file file' name arguments (.value value) (.value value)
  | failed {errors errors' : List Error} (raised : Raises fuel source name arguments errors)
    (raised' : Raises fuel source' name arguments errors')
    (causes_eq : errors.map Error.cause = errors'.map Error.cause) :
    ResultsAlike fuel source source' file file' name arguments
      (.failed (Report.ofErrors errors file source))
      (.failed (Report.ofErrors errors' file' source'))
  | exhausted : ResultsAlike fuel source source' file file' name arguments .exhausted .exhausted

/-- What two texts with these tokens have in common, phase by phase. -/
structure SameMeaning (source source' : String) (tokens tokens' : List Token) : Prop where
  /-- They are parsed into programs that differ in places, or have one error at corresponding
  tokens. -/
  parsed : ParsedAlike tokens tokens' (parse tokens) (parse tokens')
  /-- Both programs pass, or they have the same causes of errors. -/
  checked : ∀ p p', parse tokens = .ok p → parse tokens' = .ok p' →
    CheckedAlike (checkProgram p) (checkProgram p')
  /-- They print the same lines and have the same result, or errors with the same causes. -/
  run : ∀ fuel file file' name arguments,
    (runSource fuel source file name arguments).2 =
      (runSource fuel source' file' name arguments).2 ∧
    ResultsAlike fuel source source' file file' name arguments
      (runSource fuel source file name arguments).1
      (runSource fuel source' file' name arguments).1

section Sources

variable {source source' : String} {tokens tokens' : List Token}

theorem analyze_alike (h : tokenize source = .ok tokens) (h' : tokenize source' = .ok tokens')
    (hparsed : ParsedAlike tokens tokens' (parse tokens) (parse tokens')) :
    CheckedAlike (analyze source) (analyze source') := by
  unfold analyze
  rw [h, h']
  dsimp only
  generalize parse tokens = outcome at hparsed ⊢
  generalize parse tokens' = outcome' at hparsed ⊢
  cases hparsed with
  | ok same => exact checkedAlike_of_erase same
  | fault twin => exact .error (congrArg (fun cause => [cause]) twin.cause_eq)

/-- Sources that are analyzed alike run alike. -/
theorem runSource_alike (h : CheckedAlike (analyze source) (analyze source')) (fuel : Nat)
    (file file' name : String) (arguments : List Value) :
    (runSource fuel source file name arguments).2 =
      (runSource fuel source' file' name arguments).2 ∧
    ResultsAlike fuel source source' file file' name arguments
      (runSource fuel source file name arguments).1
      (runSource fuel source' file' name arguments).1 := by
  unfold runSource compile
  generalize hc : analyze source = outcome at h ⊢
  generalize hc' : analyze source' = outcome' at h ⊢
  cases h with
  | error causes_eq => exact ⟨rfl, .failed (.analysis hc) (.analysis hc') causes_eq⟩
  | @ok c c' same _ =>
    dsimp only
    obtain ⟨hending, hmachine⟩ := run_alike_of_erase same fuel name arguments .initial
    generalize hrun : Machine.initial.run c.program fuel name arguments = run at hending hmachine ⊢
    generalize hrun' : Machine.initial.run c'.program fuel name arguments = run'
      at hending hmachine ⊢
    obtain ⟨ending, m⟩ := run
    obtain ⟨ending', m'⟩ := run'
    refine ⟨congrArg Machine.output hmachine, ?_⟩
    cases hending with
    | returned value => exact .value value
    | rejected cause_eq =>
      exact .failed (.run hc (.inl hrun)) (.run hc' (.inl hrun'))
        (congrArg (fun cause => [cause]) cause_eq)
    | faulted cause_eq =>
      exact .failed (.run hc (.inr hrun)) (.run hc' (.inr hrun'))
        (congrArg (fun cause => [cause]) cause_eq)
    | exhausted => exact .exhausted

end Sources

/-- **Layout and comments never change meaning.**  Take two texts with the same kinds and values of
tokens, in which the same numbers have a point.  They are parsed into programs that differ in places
only, or into the same error at the token of the same number; they pass checking together or have
the same errors; and whatever function is run with whatever arguments, they print the same lines and
give the same value or the same error. -/
theorem layout_never_changes_meaning {source source' : String} {tokens tokens' : List Token}
    (h : tokenize source = .ok tokens) (h' : tokenize source' = .ok tokens')
    (same : SameWords tokens tokens') : SameMeaning source source' tokens tokens' := by
  have hparsed := parse_alike h h' same
  refine ⟨hparsed, fun p p' hp hp' => ?_, fun fuel file file' name arguments => ?_⟩
  · rw [hp, hp'] at hparsed
    cases hparsed with
    | ok same => exact checkedAlike_of_erase same
  · exact runSource_alike (analyze_alike h h' hparsed) fuel file file' name arguments

/-- A global and a function, written on one line. -/
def denseText : String := "half:=0.5;main:()->Float32=\x7breturn half*3.0;\x7d"

/-- The same, with blanks, comments and line breaks. -/
def spacedText : String :=
  "half /* 0 . 5 */ := 0.5 ; // a half\nmain : () -> Float32 =\n\x7b\n  return half * 3.0 ;\n\x7d\n"

/-- The two texts have the same tokens, and in both there is nothing inside the first number. -/
theorem spacedText_meaning : ∃ tokens tokens', tokenize denseText = .ok tokens ∧
    tokenize spacedText = .ok tokens' ∧ SameWords tokens tokens' ∧ TightAt tokens 2 ∧
      SameMeaning denseText spacedText tokens tokens' := by
  have hsame : SameWords ((tokenize denseText).toOption.getD [])
      ((tokenize spacedText).toOption.getD []) := by decide +kernel
  have htight : TightAt ((tokenize denseText).toOption.getD []) 2 := by decide +kernel
  have hdense : (tokenize denseText).toOption.isSome := by decide +kernel
  have hspaced : (tokenize spacedText).toOption.isSome := by decide +kernel
  cases h : tokenize denseText with
  | error errors => rw [h] at hdense; cases hdense
  | ok tokens =>
    cases h' : tokenize spacedText with
    | error errors => rw [h'] at hspaced; cases hspaced
    | ok tokens' =>
      rw [h] at hsame htight
      rw [h'] at hsame
      exact ⟨tokens, tokens', rfl, rfl, hsame, htight, layout_never_changes_meaning h h' hsame⟩

end TypedImp
