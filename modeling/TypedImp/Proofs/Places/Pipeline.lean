import TypedImp.Pipeline
import TypedImp.Proofs.Execution.Conduct
import TypedImp.Proofs.GlobalOrder
import TypedImp.Proofs.Places.Checked
import TypedImp.Proofs.Places.Parsed

/-!
# Errors on the way from source to result

Here the parts come together.  Scanning, parsing and checking find only errors of the first stage,
at spans of the text; a run that begins fails only with errors of the other stage, at spans of the
program; and what keeps a run from beginning is an error of the first stage again, at a span of the
program or at none.

* `places_of_analyze`: scanning, parsing and checking.
* `places_of_entry`: whether a run begins.
* `at_of_execute`: a run that has begun.
-/

namespace TypedImp

/-- A source whose analysis fails is not empty, and the errors have their places in it. -/
theorem places_of_analyze (source : String) :
    match analyze source with
    | .ok c => c.program.AllSpans (Span.Covers source.toList)
    | .error errors => errors ≠ [] ∧ source.toList ≠ [] ∧
      ∀ e ∈ errors, e.At .compile (Span.Points source.toList) := by
  have hwide : ∀ {e : Error}, e.At .compile (Span.Covers source.toList) →
      e.At .compile (Span.Points source.toList) :=
    fun h => ⟨h.stage, .inl h.span, h.inside⟩
  have hnonempty : ∀ {errors : List Error}, errors ≠ [] →
      (∀ e ∈ errors, e.At .compile (Span.Covers source.toList)) → source.toList ≠ [] := by
    intro errors hne h hempty
    obtain ⟨e, es, rfl⟩ := List.exists_cons_of_ne_nil hne
    obtain ⟨pre, c, text, rest, hsource, -⟩ := (h e List.mem_cons_self).span
    rw [hempty] at hsource
    simp at hsource
  unfold analyze
  cases htokens : tokenize source with
  | error errors =>
    obtain ⟨rfl, hne⟩ := tokenize_eq_error_iff.mp htokens
    have hat : ∀ e ∈ (scan .start source.toList).filterMap Item.error?,
        e.At .compile (Span.Covers source.toList) := by
      intro e he
      obtain ⟨item, hitem, heq⟩ := List.mem_filterMap.mp he
      exact (covers_of_mem_scan [] source.toList item hitem).2 e heq
    exact ⟨hne, hnonempty hne hat, fun e he => hwide (hat e he)⟩
  | ok tokens =>
    have hparsed := places_of_parse htokens
    dsimp only
    generalize parse tokens = parsed at hparsed ⊢
    match parsed with
    | .error (.fault e) =>
      exact ⟨List.cons_ne_nil e [], hparsed.2, List.forall_mem_singleton.mpr hparsed.1⟩
    | .error .exhausted => exact hparsed.elim
    | .ok p =>
      have hchecked := places_of_checkProgram hparsed
      dsimp only
      generalize checkProgram p = checked at hchecked ⊢
      cases checked with
      | ok c => exact hchecked
      | error errors =>
        exact ⟨hchecked.1, hnonempty hchecked.1 hchecked.2, fun e he => hwide (hchecked.2 e he)⟩

section

variable {P : Span → Prop} {program : Program}

theorem argumentError?_at {f : FunDecl} (h : f.AllSpans P) {arguments : List Value} {e : Error}
    (herror : argumentError? f arguments = some e) : e.At .compile P := by
  unfold argumentError? at herror
  dsimp only at herror
  split at herror
  · cases herror
    exact ⟨rfl, h.here, nofun⟩
  · split at herror
    · cases herror
      exact ⟨rfl, h.here, nofun⟩
    · obtain ⟨⟨parameter, argument⟩, hpair, hmismatch⟩ := List.exists_of_findSome?_eq_some herror
      split at hmismatch
      · cases hmismatch
        exact ⟨rfl, h.parameters parameter (List.of_mem_zip hpair).1, nofun⟩
      · cases hmismatch

/-- What keeps a run from beginning: the function is missing, or its arguments do not fit. -/
theorem places_of_entry (h : program.AllSpans P) {name : String} {arguments : List Value}
    {e : Error} (hentry : entry program name arguments = .error e) :
    e = ⟨.functionNotDefined name, .unlocated⟩ ∨ e.At .compile P := by
  unfold entry at hentry
  cases hf : program.function? name with
  | none =>
    rw [hf] at hentry
    cases hentry
    exact .inl rfl
  | some f =>
    rw [hf] at hentry
    dsimp only at hentry
    split at hentry
    · next error herror =>
      cases hentry
      exact .inr (argumentError?_at (h.function? hf) herror)
    · cases hentry

/-- Making a global fails only with errors of running programs, at spans of the program. -/
theorem at_of_initGlobals (h : program.AllSpans P) {fuel : Nat} {m m' : Machine} {e : Error}
    (herror : initGlobals program fuel program.globals m = .error (.fault e) m') :
    e.At .runtime P := by
  obtain ⟨before, decl, after, m₁, hsplit, -, hstart⟩ := initGlobals_eq_error herror
  have hdecl : decl.AllSpans P := h.globals decl (by rw [hsplit]; simp)
  have hconducts := conducts_startValue (n := 0) hdecl.here fun value hvalue =>
    (conductsAt h fuel).expr (hdecl.initial value hvalue)
  exact (hconducts.of_error (Nat.zero_le _) hstart).2 e rfl

/-- A call fails only with errors of running programs, at spans of the program. -/
theorem at_of_callFunction (h : program.AllSpans P) {f : FunDecl} (hf : f.AllSpans P) {fuel : Nat}
    {arguments : List Value} {m m' : Machine} {e : Error}
    (herror : callFunction program fuel f arguments m = .error (.fault e) m') :
    e.At .runtime P :=
  (((conductsAt h fuel).call hf arguments).of_error (Nat.zero_le _) herror).2 e rfl

/-- A run that has begun fails only with errors of running programs, at spans of the program. -/
theorem at_of_execute (h : program.AllSpans P) {f : FunDecl} (hf : f.AllSpans P) {fuel : Nat}
    {arguments : List Value} {m m' : Machine} {e : Error}
    (herror : Machine.execute program fuel f arguments m = .error (.fault e) m') :
    e.At .runtime P := by
  rcases of_execute_eq_error herror with hinit | ⟨m₁, -, hcall⟩
  · exact at_of_initGlobals h hinit
  · exact at_of_callFunction h hf hcall

end

end TypedImp
