import TypedImp.Proofs.Execution.Conduct
import TypedImp.Proofs.GlobalOrder
import TypedImp.Proofs.Typing.Elaboration

/-!
# Functions that cannot miss their result

Checking does not ask whether a function that has to give something back always does so.  A run that
comes to the end of such a function ends with an error, and this error can be ruled out by looking
at the body: it is enough that some statement of it returns, or chooses between two blocks that do.

## What a loop is worth

Nothing.  Its body may never be entered, and so a body whose only `return` stands in a loop does not
definitely return, whatever the condition is.  For the same reason a choice without an `else` does
not: its second block is empty, and an empty block lets the run go on.

* `Stmt.definitelyReturns`, `bodyDefinitelyReturns`: statements that no run gets past.
* `bodyDefinitelyReturns_iff`: some statement is a `return`, or a choice between two such blocks.
* `returned_of_bodyDefinitelyReturns`: **a run does not get past them**.
* `Error.BlamesFairly`: the error of a missing result names a function that can miss it.
* `InOrder.definitelyReturns_eq`: checking changes nothing about it.
* `definite_returns_exclude_missing_returns`: all of it.
-/

namespace TypedImp

/-! ## Definite returns -/

mutual

/-- Whether no run gets past a statement. -/
def Stmt.definitelyReturns : Stmt → Bool
  | .ret _ _ => true
  | .ifThenElse _ thenBlock elseBlock _ =>
    Block.definitelyReturns thenBlock && Block.definitelyReturns elseBlock
  | .call _ _ _ _ | .define _ | .assign _ _ _ | .whileDo _ _ _ => false

/-- Whether no run gets past a block. -/
def Block.definitelyReturns : Block Stmt → Bool
  | ⟨body, _, _⟩ => bodyDefinitelyReturns body

/-- Whether no run gets past some statement of a list. -/
def bodyDefinitelyReturns : List Stmt → Bool
  | [] => false
  | s :: ss => s.definitelyReturns || bodyDefinitelyReturns ss

end

/-- Whether no run gets past the body of a function. -/
def FunDecl.definitelyReturns (f : FunDecl) : Bool := bodyDefinitelyReturns f.body.body

theorem Block.definitelyReturns_eq (block : Block Stmt) :
    block.definitelyReturns = bodyDefinitelyReturns block.body := by
  cases block
  rw [Block.definitelyReturns]

theorem bodyDefinitelyReturns_iff_exists (ss : List Stmt) :
    bodyDefinitelyReturns ss = true ↔ ∃ s ∈ ss, s.definitelyReturns = true := by
  induction ss with
  | nil => simp [bodyDefinitelyReturns]
  | cons s ss ih => simp [bodyDefinitelyReturns, ih]

theorem Stmt.definitelyReturns_iff (s : Stmt) :
    s.definitelyReturns = true ↔
      (∃ value span, s = .ret value span) ∨
        ∃ condition thenBlock elseBlock span, s = .ifThenElse condition thenBlock elseBlock span ∧
          bodyDefinitelyReturns thenBlock.body = true ∧
          bodyDefinitelyReturns elseBlock.body = true := by
  cases s <;> simp [Stmt.definitelyReturns, Block.definitelyReturns_eq]

/-- A list of statements definitely returns when it contains a `return`, or a choice between two
blocks that definitely return. -/
theorem bodyDefinitelyReturns_iff (ss : List Stmt) :
    bodyDefinitelyReturns ss = true ↔
      (∃ value span, .ret value span ∈ ss) ∨
        ∃ condition thenBlock elseBlock span, .ifThenElse condition thenBlock elseBlock span ∈ ss ∧
          bodyDefinitelyReturns thenBlock.body = true ∧
          bodyDefinitelyReturns elseBlock.body = true := by
  simp only [bodyDefinitelyReturns_iff_exists ss, Stmt.definitelyReturns_iff]
  constructor
  · rintro ⟨s, hs, ⟨value, span, rfl⟩ | ⟨condition, thenBlock, elseBlock, span, rfl, hblocks⟩⟩
    · exact Or.inl ⟨value, span, hs⟩
    · exact Or.inr ⟨condition, thenBlock, elseBlock, span, hs, hblocks⟩
  · rintro (⟨value, span, hs⟩ | ⟨condition, thenBlock, elseBlock, span, hs, hblocks⟩)
    · exact ⟨_, hs, Or.inl ⟨value, span, rfl⟩⟩
    · exact ⟨_, hs, Or.inr ⟨condition, thenBlock, elseBlock, span, rfl, hblocks⟩⟩

/-! ## Runs do not get past them -/

/-- A computation that does not let the run go on: if it comes to a flow at all, it returns. -/
def Exec.Returns (x : Exec Flow) : Prop :=
  ∀ m m' flow, x m = .ok flow m' → ∃ value, flow = .returned value

namespace Exec.Returns

theorem returned (value : Value) : Returns (pure (.returned value)) := by
  intro m m' flow h
  cases h
  exact ⟨value, rfl⟩

theorem exhausted : Returns Exec.exhausted := nofun

/-- Whatever comes first, what comes last decides. -/
theorem bind {α : Type} (x : Exec α) {f : α → Exec Flow} (h : ∀ a, Returns (f a)) :
    Returns (x >>= f) := by
  intro m m' flow hok
  change EStateM.bind x f m = _ at hok
  unfold EStateM.bind at hok
  split at hok
  · next a m₁ _ => exact h a m₁ m' flow hok
  · cases hok

theorem inFrame (parent : Nat) {x : Exec Flow} (h : Returns x) : Returns (inFrame parent x) := by
  intro m m' flow hok
  unfold Exec.inFrame at hok
  split at hok
  · next value m₁ hinner =>
    cases hok
    exact h _ _ _ hinner
  · cases hok

/-- Statements in order do not let the run go on if one of them does not.  An earlier one may end
the function before it is reached. -/
theorem execBody {exec : Stmt → Exec Flow} {s : Stmt} (h : Returns (exec s)) :
    ∀ {ss : List Stmt}, s ∈ ss → Returns (execBody exec ss)
  | first :: ss, hmem => by
    intro m m' flow hok
    change EStateM.bind (exec first) _ m = _ at hok
    unfold EStateM.bind at hok
    split at hok
    · next a m₁ hfirst =>
      cases a with
      | returned value =>
        cases hok
        exact ⟨value, rfl⟩
      | proceed =>
        rcases List.mem_cons.mp hmem with rfl | hmem
        · obtain ⟨value, hvalue⟩ := h _ _ _ hfirst
          cases hvalue
        · exact execBody h hmem m₁ m' flow hok
    · cases hok

/-- A nested block does not let the run go on if one of its statements does not. -/
theorem execBlock {exec : Stmt → Exec Flow} {s : Stmt} (h : Returns (exec s)) {block : Block Stmt}
    (hmem : s ∈ block.body) : Returns (execBlock exec block) := by
  have hfilled : ¬ block.body.isEmpty = true := by
    rw [List.isEmpty_iff]
    exact List.ne_nil_of_mem hmem
  intro m m' flow hok
  rw [TypedImp.execBlock, if_neg hfilled] at hok
  exact inFrame m.frames.active (execBody h hmem) m m' flow hok

end Exec.Returns

section

variable {program : Program}

mutual

/-- No run gets past a statement that definitely returns. -/
theorem Stmt.returns_of_definitelyReturns : ∀ {s : Stmt}, s.definitelyReturns = true →
    ∀ fuel, Exec.Returns (execStmt program fuel s)
  | _, _, 0 => .exhausted
  | .ret none _, _, _ + 1 => .returned .void
  | .ret (some e) _, _, fuel + 1 => .bind (evalExpr program fuel e) .returned
  | .ifThenElse condition ⟨thenBody, thenScope, thenSpan⟩ ⟨elseBody, elseScope, elseSpan⟩ _, h,
    fuel + 1 => by
    simp only [Stmt.definitelyReturns, Block.definitelyReturns, Bool.and_eq_true] at h
    obtain ⟨taken, htaken, hthen⟩ := exists_returns_of_definitelyReturns h.1
    obtain ⟨other, hother, helse⟩ := exists_returns_of_definitelyReturns h.2
    -- the condition may come out either way, and both blocks return
    rw [execStmt]
    refine .bind _ fun value => .bind _ fun b => ?_
    cases b with
    | true => exact .execBlock (hthen fuel) htaken
    | false => exact .execBlock (helse fuel) hother

theorem Stmt.exists_returns_of_definitelyReturns : ∀ {ss : List Stmt},
    bodyDefinitelyReturns ss = true →
    ∃ s ∈ ss, ∀ fuel, Exec.Returns (execStmt program fuel s)
  | s :: ss, h => by
    rw [bodyDefinitelyReturns, Bool.or_eq_true] at h
    rcases h with hfirst | hrest
    · exact ⟨s, List.mem_cons_self, returns_of_definitelyReturns hfirst⟩
    · obtain ⟨s', hmem, hreturns⟩ := exists_returns_of_definitelyReturns hrest
      exact ⟨s', List.mem_cons_of_mem s hmem, hreturns⟩

end

/-- **No run gets past statements that definitely return.** -/
theorem returned_of_bodyDefinitelyReturns {ss : List Stmt} (h : bodyDefinitelyReturns ss = true)
    (fuel : Nat) : Exec.Returns (execBody (execStmt program fuel) ss) := by
  obtain ⟨s, hmem, hreturns⟩ := Stmt.exists_returns_of_definitelyReturns h
  exact .execBody (hreturns fuel) hmem

/-! ## The error of a missing result -/

/-- If an error is that of a missing result, it names a function of the program that has to give one
and does not definitely return. -/
def Error.BlamesFairly (program : Program) (e : Error) : Prop :=
  ∀ name, e.cause = .missingReturn name →
    ∃ f, program.function? name = some f ∧ e.span = f.span ∧ f.result ≠ .void ∧
      f.definitelyReturns = false

theorem Error.BlamesFairly.of_stage {e : Error} (h : e.stage = .compile) :
    e.BlamesFairly program := by
  intro name hcause
  rw [Error.stage, hcause] at h
  cases h

/-- A function that was found is found again under its own name. -/
theorem Program.function?_name {name : String} {f : FunDecl} (h : program.function? name = some f) :
    program.function? f.name = some f := by
  have hname : f.name = name := by simpa using List.find?_some h
  rw [hname, h]

/-- Evaluation raises the error of a missing result only against functions that deserve it: they
came to their end, and no function does that if it definitely returns. -/
theorem permits_blamesFairly (program : Program) :
    program.Permits (fun _ => True) (fun f => program.function? f.name = some f)
      (Error.BlamesFairly program) where
  function? := Program.function?_name
  allSpans := (Program.allSpans_of_forall (fun _ => trivial) program).function?
  immediate := by
    rintro span - cause himmediate name rfl
    cases himmediate
  missingReturn := by
    rintro f hf hresult fuel m m' hproceed _ ⟨⟩
    refine ⟨f, hf, rfl, hresult, ?_⟩
    by_contra hreturns
    rw [Bool.not_eq_false] at hreturns
    obtain ⟨value, hvalue⟩ := returned_of_bodyDefinitelyReturns hreturns fuel m m' _ hproceed
    cases hvalue

theorem blamesFairly_of_execute {f : FunDecl} (hf : program.function? f.name = some f) {fuel : Nat}
    {arguments : List Value} {m m' : Machine} {e : Error}
    (h : Machine.execute program fuel f arguments m = .error (.fault e) m') :
    e.BlamesFairly program := by
  have permits := permits_blamesFairly program
  have hevaluation := conductsWith permits fuel
  rcases of_execute_eq_error h with hinit | ⟨m₁, -, hcall⟩
  · obtain ⟨before, decl, after, m₁, -, -, hstart⟩ := initGlobals_eq_error hinit
    have hdecl : Exec.Conducts 0 (Error.BlamesFairly program)
        (startValue (evalExpr program fuel) decl) :=
      .startValue (permits.immediate trivial) fun value _ =>
        hevaluation.expr (Expr.allSpans_of_forall (fun _ => trivial) value)
    exact (hdecl.of_error (Nat.zero_le _) hstart).2 e rfl
  · exact ((hevaluation.call hf arguments).of_error (Nat.zero_le _) hcall).2 e rfl

section Runs

variable {fuel : Nat} {name : String} {arguments : List Value} {m m' : Machine} {e : Error}

/-- A run that is turned away ends with an error of the first stage. -/
theorem stage_of_run_eq_rejected (h : m.run program fuel name arguments = (.rejected e, m')) :
    e.stage = .compile := by
  unfold Machine.run at h
  cases hentry : entry program name arguments with
  | error e' =>
    rw [hentry] at h
    cases h
    exact stage_of_entry_eq_error hentry
  | ok f =>
    rw [hentry] at h
    dsimp only at h
    split at h
    · cases h
    · next stop _ _ =>
      cases stop with
      | exhausted => cases h
      | fault e' =>
        unfold Ending.ofStop Ending.ofError at h
        dsimp only at h
        split at h
        · next hstage =>
          cases h
          exact hstage
        · cases h

/-- **The error of a missing result is fair.** -/
theorem blamesFairly_of_run (h : m.run program fuel name arguments = (.rejected e, m') ∨
    m.run program fuel name arguments = (.faulted e, m')) : e.BlamesFairly program := by
  rcases h with hrejected | hfaulted
  · exact .of_stage (stage_of_run_eq_rejected hrejected)
  · obtain ⟨f, hentry, hexecute⟩ := of_run_eq_faulted hfaulted
    have hname : program.function? name = some f := (of_entry_eq_ok hentry).1
    exact blamesFairly_of_execute (Program.function?_name hname) hexecute

end Runs

end

/-! ## Before and after checking -/

section Checking

variable {signatures : Signatures}

mutual

theorem Stmt.Elaborates.definitelyReturns_eq {id : Nat} {t t' : ScopeTree} {s s' : Stmt} :
    s.Elaborates signatures id t s' t' → s'.definitelyReturns = s.definitelyReturns
  | .call _ _ => rfl
  | .define _ => by simp only [Stmt.definitelyReturns]
  | .assign _ => rfl
  | .ret _ => rfl
  | .ifThenElse _ _ hthen helse => by
    simp only [Stmt.definitelyReturns, hthen.definitelyReturns_eq, helse.definitelyReturns_eq]
  | .whileDo _ _ _ => by simp only [Stmt.definitelyReturns]

theorem Block.Elaborates.definitelyReturns_eq {id : Nat} {t t' : ScopeTree} {b b' : Block Stmt} :
    b.Elaborates signatures id t b' t' → b'.definitelyReturns = b.definitelyReturns
  | .empty _ _ _ _ => rfl
  | .filled _ _ _ hbody => by
    simp only [Block.definitelyReturns, hbody.definitelyReturns_eq]

theorem BodyElaborates.definitelyReturns_eq {id : Nat} {t t' : ScopeTree} {ss ss' : List Stmt} :
    BodyElaborates signatures id t ss ss' t' →
    bodyDefinitelyReturns ss' = bodyDefinitelyReturns ss
  | .nil _ _ => rfl
  | .cons hhead htail => by
    simp only [bodyDefinitelyReturns, hhead.definitelyReturns_eq, htail.definitelyReturns_eq]

end

/-- Types that are filled in and numbers of scopes do not matter. -/
theorem InOrder.definitelyReturns_eq {t t' : ScopeTree} {fs fs' : List FunDecl}
    (h : InOrder (FunDecl.Elaborates signatures) t fs fs' t') :
    fs'.map (fun f => (f.name, f.result, f.definitelyReturns)) =
      fs.map fun f => (f.name, f.result, f.definitelyReturns) := by
  induction h with
  | nil t => rfl
  | cons head_related _ ih =>
    obtain ⟨t₁, -, hbody⟩ := head_related.body
    rw [List.map_cons, List.map_cons, ih, head_related.name_eq, head_related.result_eq]
    simp only [FunDecl.definitelyReturns, hbody.definitelyReturns_eq]

end Checking

/-! ## The statement -/

/-- **A function that definitely returns never misses its result.**  A list of statements definitely
returns if it contains a `return`, or a choice between two blocks that definitely return.

* No run gets past such statements: on any machine and with any fuel, if they come to an end without
  an error, they return a value.
* However a run ends, the error of a missing result names a function of the program that has to give
  a result and does not definitely return, and stands at its place.
* So if all functions that have to give a result definitely return, no run ends with this error.

The second and the third hold of all programs, so they hold of what checking makes of a program; and
there the functions have the names and results that they had, and definitely return if they did. -/
theorem definite_returns_exclude_missing_returns (program : Program) :
    (∀ ss, bodyDefinitelyReturns ss = true ↔
      (∃ value span, .ret value span ∈ ss) ∨
        ∃ condition thenBlock elseBlock span, .ifThenElse condition thenBlock elseBlock span ∈ ss ∧
          bodyDefinitelyReturns thenBlock.body = true ∧
          bodyDefinitelyReturns elseBlock.body = true) ∧
    (∀ ss, bodyDefinitelyReturns ss = true → ∀ fuel m flow m',
      execBody (execStmt program fuel) ss m = .ok flow m' → ∃ value, flow = .returned value) ∧
    (∀ fuel name arguments (m m' : Machine) (e : Error),
      m.run program fuel name arguments = (.rejected e, m') ∨
        m.run program fuel name arguments = (.faulted e, m') →
      (∀ culprit, e.cause = .missingReturn culprit →
        ∃ f, program.function? culprit = some f ∧ e.span = f.span ∧ f.result ≠ .void ∧
          bodyDefinitelyReturns f.body.body = false) ∧
      ((∀ f ∈ program.functions, f.result ≠ .void → bodyDefinitelyReturns f.body.body = true) →
        ∀ culprit, e.cause ≠ .missingReturn culprit)) ∧
    ∀ c, checkProgram program = .ok c →
      c.program.functions.map (fun f => (f.name, f.result, bodyDefinitelyReturns f.body.body)) =
        program.functions.map fun f => (f.name, f.result, bodyDefinitelyReturns f.body.body) := by
  refine ⟨bodyDefinitelyReturns_iff, ?_, ?_, ?_⟩
  · intro ss hss fuel m flow m' hok
    exact returned_of_bodyDefinitelyReturns hss fuel m m' flow hok
  · intro fuel name arguments m m' e hrun
    have hfair : e.BlamesFairly program := blamesFairly_of_run hrun
    refine ⟨hfair, fun hall culprit hcause => ?_⟩
    obtain ⟨f, hf, -, hresult, hmisses⟩ := hfair culprit hcause
    have hreturns := hall f (List.mem_of_find?_eq_some hf) hresult
    rw [FunDecl.definitelyReturns, hreturns] at hmisses
    cases hmisses
  · intro c hchecked
    obtain ⟨signatures, -, t, -, hfunctions⟩ := checkProgram_eq_ok_iff.mp hchecked
    exact hfunctions.definitelyReturns_eq

/-- A program whose function gives a number back in one of two cases.  In the other case it comes to
its end, although a loop follows that would return if it was entered. -/
def halfway : Program where
  globals := []
  functions :=
    [⟨"main", [⟨"b", ⟨.bool, false⟩, .unlocated⟩], .int32,
      .unresolved
        [.ifThenElse (.name "b" .unlocated)
          (.unresolved [.ret (some (.number (.int32 1) "1" .unlocated)) .unlocated] .unlocated)
          (.unresolved [] .unlocated) .unlocated,
        .whileDo (.name "b" .unlocated)
          (.unresolved [.ret (some (.number (.int32 2) "2" .unlocated)) .unlocated] .unlocated)
          .unlocated]
        .unlocated, .unlocated⟩]

/-- The program passes the checks, one of its runs misses a result, and the function that is named
does not definitely return. -/
theorem halfway_misses_result : ∃ c, checkProgram halfway = .ok c ∧
    (∃ m', Machine.initial.run c.program 9 "main" [.bool false] =
      (.faulted ⟨.missingReturn "main", .unlocated⟩, m')) ∧
    ∃ f, c.program.function? "main" = some f ∧ f.result ≠ .void ∧
      bodyDefinitelyReturns f.body.body = false := by
  have hmisses : ∀ (c : Checked) m', Machine.initial.run c.program 9 "main" [.bool false] =
      (.faulted ⟨.missingReturn "main", .unlocated⟩, m') →
      ∃ f, c.program.function? "main" = some f ∧ f.result ≠ .void ∧
        bodyDefinitelyReturns f.body.body = false := by
    intro c m' hrun
    obtain ⟨-, -, hruns, -⟩ := definite_returns_exclude_missing_returns c.program
    obtain ⟨hfair, -⟩ := hruns 9 "main" [.bool false] .initial m' _ (Or.inr hrun)
    obtain ⟨f, hf, -, hresult, hbody⟩ := hfair "main" rfl
    exact ⟨f, hf, hresult, hbody⟩
  exact ⟨_, rfl, ⟨_, rfl⟩, hmisses _ _ rfl⟩

end TypedImp
