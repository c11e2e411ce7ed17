import TypedImp.Proofs.Guarded.Frames
import TypedImp.Proofs.Guarded.Scanning
import TypedImp.Proofs.Guarded.Tokens
import TypedImp.Proofs.Highlighting

/-!
# No access fails

On the way from a source text to its result there are steps that make sense only under a condition:
a part of a text is cut out between two offsets, an element of a vector is taken by its index, a
number is made smaller by one.  Here all such steps of scanning, parsing, checking, running and
showing errors are put together.  Each was defined with its failure; none of them ever fails, and
the results are those of the definitions in which nothing can fail.

## What is guarded

Scanning cuts texts out of the source and counts levels of comments.  Parsing looks at tokens by
their index.  Checking a call takes the first argument that is too many.  Running takes frames and
variables by their index.  Showing an error draws one tilde less than there are marked characters.

* `checkArity?`, `Diagnostic.render?`, `Report.render?`: checking calls and showing errors, with
  their failures.
* `Cursor.Accessible`, `FrameStack.Accessible`: all that is done with a vector succeeds.
* `accesses_never_fail`: **all steps, for every source**.
-/

namespace TypedImp

/-! ## Calls with the wrong number of arguments -/

/-- The error of calling with the wrong number of arguments.  If there are too many, the first of
them is taken by its index. -/
def checkArity? (expected : Nat) (arguments : List Expr) (span : Span) :
    Option (Option Error) :=
  if expected < arguments.length then do
    let extra ← arguments[expected]?
    return some ⟨.unexpectedArguments expected arguments.length, extra.span⟩
  else if arguments.length < expected then
    return some ⟨.missingArguments expected arguments.length, span⟩
  else return none

/-- If there are too many arguments, the first of them is there. -/
theorem checkArity?_eq (expected : Nat) (arguments : List Expr) (span : Span) :
    checkArity? expected arguments span = some (arityError? expected arguments span) := by
  rw [checkArity?, arityError?]
  by_cases hmany : expected < arguments.length
  · rw [if_pos hmany, List.getElem?_eq_getElem hmany]
    rfl
  · rw [if_neg hmany, List.getElem?_eq_none (by omega)]
    dsimp only
    split <;> rfl

/-! ## Showing errors -/

namespace Diagnostic

/-- How a diagnostic is shown.  Of the marked characters one has the caret and the others have
tildes, so there has to be one. -/
def render? (d : Diagnostic) : Option String :=
  if d.isLocated then do
    let tildes ← d.length.ppred
    let mark := "    " ++ String.ofList (d.padding ++ '^' :: List.replicate tildes '~')
    return s!"{d.file}:{d.line}:{d.column + 1}: {d.message}\n    {d.snippet}\n{mark}"
  else return s!"{d.file}: {d.message}"

/-- A diagnostic that marks something can be shown. -/
theorem render?_eq {d : Diagnostic} (h : d.isLocated = true → 1 ≤ d.length) :
    d.render? = some d.render := by
  rw [render?, render]
  by_cases hlocated : d.isLocated = true
  · have hlength := h hlocated
    have hpred : d.length.ppred = some (d.length - 1) := by
      conv_lhs => rw [← Nat.sub_add_cancel hlength]
      exact Nat.ppred_succ
    rw [if_pos hlocated, if_pos hlocated, hpred]
    rfl
  · rw [if_neg hlocated, if_neg hlocated]
    rfl

theorem Shows.one_le_length {source : List Char} {e : Error} {d : Diagnostic}
    (h : d.Shows source e) (hlocated : d.isLocated = true) : 1 ≤ d.length := by
  rcases (h.marks hlocated).marked with ⟨-, hlength, -⟩ | ⟨-, -, hlength⟩ <;> omega

end Diagnostic

namespace Report

/-- How diagnostics are shown, if each can be shown. -/
def render? (r : Report) : Option String := do
  let shown ← r.mapM Diagnostic.render?
  return "\n".intercalate (shown.map (· ++ "\n"))

/-- A report can be shown if all its diagnostics can. -/
theorem render?_eq {r : Report} (h : ∀ d ∈ r, d.render? = some d.render) :
    r.render? = some r.render := by
  have hmap : r.mapM Diagnostic.render? = some (r.map Diagnostic.render) := by
    induction r with
    | nil => rfl
    | cons d r ih =>
      obtain ⟨hd, hr⟩ := List.forall_mem_cons.mp h
      rw [List.mapM_cons, hd, ih hr]
      rfl
  rw [render?, hmap, render, Option.bind_eq_bind, Option.bind_some, List.map_map]
  rfl

/-- A report about errors that are shown can be shown. -/
theorem render?_ofErrors {errors : List Error} {file source : String}
    (h : ∀ e ∈ errors, (Diagnostic.ofError e file source).Shows source.toList e) :
    (ofErrors errors file source).render? = some (ofErrors errors file source).render := by
  refine render?_eq fun d hd => ?_
  obtain ⟨e, he, rfl⟩ := List.mem_map.mp hd
  exact Diagnostic.render?_eq (h e he).one_le_length

end Report

/-! ## Vectors -/

/-- Looking at the tokens around a cursor and advancing succeed on the vector of tokens. -/
structure Cursor.Accessible (c : Cursor) : Prop where
  peek : ∀ n, c.vector.peek? n = some (c.peek n)
  previousSpan : c.vector.previousSpan? = some c.previousSpan
  advance : c.vector.advance? = some (c.current, c.advance.vector)

/-- All that is done with the frames of a stack succeeds on their vector. -/
structure FrameStack.Accessible (s : FrameStack) : Prop where
  active : s.vector.active? = some s.active
  push : ∀ parent, s.vector.push? parent = some ((s.push parent).active, (s.push parent).vector)
  pop : s.vector.pop = s.pop.vector
  bind : ∀ name value, s.vector.bind? name value = some (s.bind name value).vector
  get : ∀ name, s.vector.get? name = some (s.get? name)
  set : ∀ name value, s.vector.set? name value = some ((s.set? name value).map vector)
  reset : s.vector.reset? = some FrameStack.initial.vector

theorem FrameStack.WellFormed.accessible {s : FrameStack} (h : s.WellFormed) : s.Accessible where
  active := s.active?_vector
  push := s.push?_vector
  pop := s.pop_vector
  bind := s.bind?_vector
  get := get?_vector h
  set := set?_vector h
  reset := s.reset?_vector

/-- The cursors of parsing are reached by advancing, and all of them are accessible. -/
theorem accessible_of_advances (tokens : List Token) (k : Nat) :
    (TokenVector.new tokens).reached? k =
        some (Cursor.advance^[k] (Cursor.ofTokens tokens)).vector ∧
      (Cursor.advance^[k] (Cursor.ofTokens tokens)).Accessible := by
  have hends : ∀ k, (Cursor.advance^[k] (Cursor.ofTokens tokens)).Ends := by
    intro k
    induction k with
    | zero => exact Cursor.ends_ofTokens tokens
    | succ k ih =>
      rw [Function.iterate_succ_apply']
      exact ih.advance
  refine ⟨?_, Cursor.peek?_vector _, Cursor.previousSpan?_vector _,
    Cursor.advance?_vector (hends k)⟩
  rw [← Cursor.vector_ofTokens]
  exact TokenVector.reached?_vector (Cursor.ends_ofTokens tokens) k

/-- The cursor at which parsing stops. -/
def Parse.stopped (tokens : List Token) : Cursor :=
  match Parse.definitions .standard (Cursor.ofTokens tokens).fuel .empty
    (Cursor.ofTokens tokens) with
  | .ok _ c | .error _ c => c

/-- Parsing stops at a cursor that is reached by advancing. -/
theorem exists_advances_stopped (tokens : List Token) :
    ∃ k, Parse.stopped tokens = Cursor.advance^[k] (Cursor.ofTokens tokens) := by
  have hadvances := advances_definitions tokens
  unfold Parse.stopped
  generalize Parse.definitions .standard (Cursor.ofTokens tokens).fuel .empty
    (Cursor.ofTokens tokens) = result at hadvances ⊢
  cases result with
  | ok program c => exact hadvances.1.exists_iterate
  | error stop c => exact hadvances.2.exists_iterate

/-- A source that was analyzed is a program that was checked. -/
theorem checkProgram_of_analyze_eq_ok {source : String} {c : Checked}
    (h : analyze source = .ok c) : ∃ p, checkProgram p = .ok c := by
  unfold analyze at h
  split at h
  · cases h
  · split at h
    · cases h
    · cases h
    · next p _ => exact ⟨p, h⟩

/-- The frames at the end of a run are those that its events make. -/
theorem frames_of_record {source : String} {c : Checked} (h : analyze source = .ok c) (fuel : Nat)
    {name : String} {arguments : List Value} {f : FunDecl}
    (hentry : entry c.program name arguments = .ok f) :
    (Machine.initial.record c.program fuel name arguments).2.machine.frames =
      (replay (Machine.initial.record c.program fuel name arguments).2.events).frames := by
  obtain ⟨p, hchecked⟩ := checkProgram_of_analyze_eq_ok h
  obtain ⟨signatures, typed⟩ := programTyped_of_checkProgram hchecked
  obtain ⟨L, hsound⟩ := sound_record typed fuel hentry .initial
  exact hsound.frames_eq

/-! ## All steps -/

/-- **No access fails**, whatever the source is.

* Scanning over bytes cuts the source only between characters, the counter of comment levels does
  not go below zero, and the result is that of scanning.
* After any number of advances the tokens around the cursor are taken from inside their vector, and
  parsing only advances.
* A call with too many arguments has the argument that is the first too many.
* After any events the frames and their variables are taken from inside their vectors, and the
  frames of a run come about by events.
* Every report about compiling or running the source can be shown. -/
theorem accesses_never_fail (source file : String) :
    tokenize? source = some (tokenize source) ∧
    (∀ tokens, tokenize source = .ok tokens →
      (∀ k, (TokenVector.new tokens).reached? k =
          some (Cursor.advance^[k] (Cursor.ofTokens tokens)).vector ∧
        (Cursor.advance^[k] (Cursor.ofTokens tokens)).Accessible) ∧
      ∃ k, Parse.stopped tokens = Cursor.advance^[k] (Cursor.ofTokens tokens)) ∧
    (∀ expected arguments span,
      checkArity? expected arguments span = some (arityError? expected arguments span)) ∧
    (∀ events, FrameVector.replay? events = some (replay events).frames.vector ∧
      (replay events).frames.Accessible) ∧
    (∀ c fuel name arguments, analyze source = .ok c →
      ((Machine.initial.record c.program fuel name arguments).1,
          (Machine.initial.record c.program fuel name arguments).2.machine) =
        Machine.initial.run c.program fuel name arguments ∧
      ∀ f, entry c.program name arguments = .ok f →
        (Machine.initial.record c.program fuel name arguments).2.machine.frames =
          (replay (Machine.initial.record c.program fuel name arguments).2.events).frames) ∧
    (∀ report, compile source file = .error report → report.render? = some report.render) ∧
    ∀ fuel name arguments report output,
      runSource fuel source file name arguments = (.failed report, output) →
      report.render? = some report.render := by
  refine ⟨tokenize?_eq source, ?_, checkArity?_eq, ?_, ?_, ?_, ?_⟩
  · exact fun tokens _ => ⟨accessible_of_advances tokens, exists_advances_stopped tokens⟩
  · intro events
    obtain ⟨hwellFormed, hreplay⟩ := replay?_eq events
    exact ⟨hreplay, hwellFormed.accessible⟩
  · intro c fuel name arguments hanalyze
    exact ⟨Machine.record_eq_run _ _ _ _ _, fun f hentry => frames_of_record hanalyze fuel hentry⟩
  · intro report hcompile
    obtain ⟨errors, hanalyze, rfl, -⟩ := compile_eq_error hcompile
    exact Report.render?_ofErrors (shows_of_analyze hanalyze)
  · intro fuel name arguments report output hrun
    obtain ⟨errors, hraises, rfl⟩ := raises_of_runSource hrun
    exact Report.render?_ofErrors hraises.shows

end TypedImp
