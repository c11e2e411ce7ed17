import TypedImp.Proofs.Execution.SafeSteps

/-!
# Well-typed programs are evaluated safely

One induction on the fuel, with a case for every typing rule.  The four parts of evaluation go
together, because expressions call functions, functions run statements and statements evaluate
expressions.  What is claimed of them is put down once, in `SafeAt`; each part with one more unit of
fuel then follows from all four with the fuel before.

* `SafeAt`: the four parts of evaluation are safe with some fuel.
* `SafeAt.expr_succ`, `SafeAt.call_succ`, `SafeAt.stmt_succ`, `SafeAt.loop_succ`: one more step.
* `safeAt`: evaluation is safe with any fuel.
-/

namespace TypedImp

/-! ## Evaluation -/

/-- If a statement ends its function, the value is of the given type. -/
def Flow.Returns (result : Ty) (flow : Flow) : Prop :=
  ∀ value, flow = .returned value → value.ty = result

theorem Flow.returns_proceed (result : Ty) : Flow.Returns result .proceed := by
  intro value h
  cases h

theorem Flow.returns_returned {result : Ty} {value : Value} (h : value.ty = result) :
    Flow.Returns result (.returned value) := by
  intro value' heq
  cases heq
  exact h

/-- The four parts of evaluation are safe with some fuel, wherever typing rules allow them. -/
structure SafeAt (signatures : Signatures) (program : Program) (later : List Binding)
    (fuel : Nat) : Prop where
  expr : ∀ {L pending env e t}, Situated program later pending L env → HasType signatures env e t →
    Safe program (Excused later (pending = [] → e.CallsDefined program)) L
      (Logged.evalExpr program fuel e) fun value L' => value.ty = t ∧ L' = L
  call : ∀ {L f arguments}, program.globalScope = later ++ L.declared FrameStack.globalId →
    1 ≤ L.active → f ∈ program.functions → f.Accepts arguments →
    Safe program (Excused later True) L (Logged.callFunction program fuel f arguments)
      fun value L' => value.ty = f.result ∧ L' = L
  stmt : ∀ {L env env' result s}, Situated program later later L env → 2 ≤ L.active →
    StmtTyped signatures result env s env' →
    Safe program (Excused later True) L (Logged.execStmt program fuel s) fun flow L' =>
      flow.Returns result ∧ (flow = .proceed → Situated program later later L' env')
  loop : ∀ {L env bodyEnd result condition body}, Situated program later later L env →
    HasType signatures env condition .bool →
    BodyTyped signatures result ([] :: env) body.body bodyEnd →
    Safe program (Excused later True) L (Logged.execWhile program fuel condition body)
      fun flow L' => flow.Returns result ∧ L' = L

namespace SafeAt

variable {signatures : Signatures} {program : Program} {later : List Binding} {fuel : Nat}

/-! ### Expressions -/

/-- In a part of an expression, a missing variable is excused as in the whole. -/
theorem expr_part (ih : SafeAt signatures program later fuel) {pending : List Binding} {L : Layout}
    {env : Visible} (h : Situated program later pending L env) {e whole : Expr} {t : Ty}
    (htype : HasType signatures env e t) (hpart : ∀ name, e.Calls name → whole.Calls name) :
    Safe program (Excused later (pending = [] → whole.CallsDefined program)) L
      (Logged.evalExpr program fuel e) fun value L' => value.ty = t ∧ L' = L := by
  refine (ih.expr h htype).excuse fun _ hstop => hstop.weaken ?_
  intro hcalls hpending
  obtain ⟨name, f, hprint, hf, hname⟩ := hcalls hpending
  exact ⟨name, f, hprint, hf, hpart name hname⟩

/-- The same without a word on who looked for a missing variable. -/
theorem expr_plain (ih : SafeAt signatures program later fuel) {pending : List Binding} {L : Layout}
    {env : Visible} (h : Situated program later pending L env) {e : Expr} {t : Ty}
    (htype : HasType signatures env e t) :
    Safe program (Excused later True) L (Logged.evalExpr program fuel e)
      fun value L' => value.ty = t ∧ L' = L :=
  (ih.expr h htype).excuse fun _ hstop => hstop.weaken fun _ => trivial

theorem evalEach (ih : SafeAt signatures program later fuel) {pending : List Binding} {L : Layout}
    {env : Visible} (h : Situated program later pending L env) {whole : Expr} {es : List Expr}
    {types : List Ty} (htypes : List.Forall₂ (HasType signatures env) es types)
    (hpart : ∀ e ∈ es, ∀ name, e.Calls name → whole.Calls name) :
    Safe program (Excused later (pending = [] → whole.CallsDefined program)) L
      (Logged.evalEach (Logged.evalExpr program fuel) es) fun values L' =>
        List.Forall₂ (fun (value : Value) t => value.ty = t) values types ∧ L' = L := by
  induction htypes with
  | nil => exact Safe.pure ⟨.nil, rfl⟩
  | @cons e t es types htype _ ihes =>
    refine Safe.bind (ih.expr_part h htype (hpart e (by simp))) ?_
    rintro value _ - ⟨hvalue, rfl⟩
    refine Safe.bind (ihes fun e' he' => hpart e' (by simp [he'])) ?_
    rintro values _ - ⟨hvalues, rfl⟩
    exact Safe.pure ⟨.cons hvalue hvalues, rfl⟩

theorem expr_succ (typed : ProgramTyped signatures program)
    (ih : SafeAt signatures program later fuel) {L : Layout} {pending : List Binding}
    {env : Visible} {e : Expr} {t : Ty} (h : Situated program later pending L env)
    (htype : HasType signatures env e t) :
    Safe program (Excused later (pending = [] → e.CallsDefined program)) L
      (Logged.evalExpr program (fuel + 1) e) fun value L' => value.ty = t ∧ L' = L := by
  cases htype with
  | number value text span => exact Safe.pure ⟨value.ty_toValue, rfl⟩
  | string value span => exact Safe.pure ⟨rfl, rfl⟩
  | bool value span => exact Safe.pure ⟨rfl, rfl⟩
  | name span seen =>
    rw [Logged.evalExpr]
    exact h.lookup typed seen span _
  | unary span operand_type accepts =>
    rw [Logged.evalExpr]
    refine Safe.bind (ih.expr_part h operand_type fun _ hin => .operand span hin) ?_
    rintro value _ - ⟨rfl, rfl⟩
    obtain ⟨result, hresult, hty⟩ := UnaryOp.eval?_of_accepts accepts
    rw [hresult]
    exact Safe.pure ⟨hty, rfl⟩
  | @binary op left right t span left_type right_type accepts =>
    rw [Logged.evalExpr]
    refine Safe.bind (ih.expr_part h left_type fun _ hin => .left right span hin) ?_
    rintro v _ - ⟨rfl, rfl⟩
    refine Safe.bind (ih.expr_part h right_type fun _ hin => .right left span hin) ?_
    rintro w _ - ⟨hw, rfl⟩
    rcases BinaryOp.eval_of_accepts hw accepts with ⟨result, hresult, hty⟩ | herror
    · rw [hresult]
      exact Safe.pure ⟨hty, rfl⟩
    · rw [herror]
      exact Safe.raise (.divisionByZero span)
  | print nameSpan span unseen unknown arguments_type =>
    rw [Logged.evalExpr]
    refine Safe.bind (ih.evalEach h arguments_type
      fun e he _ hin => .argument span he hin) ?_
    rintro values _ - ⟨-, rfl⟩
    exact Safe.print values span
  | @call name signature arguments nameSpan span unseen known arguments_type =>
    obtain ⟨hprint, f, hf, rfl⟩ := typed.known name signature known
    rw [Logged.evalExpr]
    refine Safe.bind (ih.evalEach h arguments_type
      fun e he _ hin => .argument span he hin) ?_
    rintro values _ - ⟨hvalues, rfl⟩
    rw [if_neg hprint, hf]
    have haccepts : f.Accepts values := List.forall₂_map_right_iff.mp hvalues
    refine (ih.call h.globals_eq h.sees.one_le (List.mem_of_find?_eq_some hf) haccepts).excuse
      fun _ hstop => hstop.weaken ?_
    exact fun _ _ => ⟨name, f, hprint, hf, .here nameSpan arguments span⟩

/-! ### Statements -/

theorem startValue (ih : SafeAt signatures program later fuel) {pending : List Binding}
    {L : Layout} {env : Visible} (h : Situated program later pending L env) {decl : VarDecl}
    (htyped : VarTyped signatures env decl) :
    Safe program (Excused later True) L (Logged.startValue (Logged.evalExpr program fuel) decl)
      fun value L' => value.ty = decl.type.ty ∧ L' = L := by
  unfold Logged.startValue
  cases hinit : decl.initializer with
  | some e => exact ih.expr_plain h (htyped.initializer e hinit)
  | none =>
    obtain ⟨value, hzero, hty⟩ := Value.zero?_of_hasValues htyped.hasValues
    unfold Exec.zeroOf
    rw [hzero]
    exact Safe.pure ⟨hty, rfl⟩

theorem execBody (ih : SafeAt signatures program later fuel) {L : Layout} {env last : Visible}
    {result : Ty} {ss : List Stmt} (h : Situated program later later L env) (hactive : 2 ≤ L.active)
    (htyped : BodyTyped signatures result env ss last) :
    Safe program (Excused later True) L (Logged.execBody (Logged.execStmt program fuel) ss)
      fun flow _ => flow.Returns result := by
  induction ss generalizing L env with
  | nil => exact Safe.pure (Flow.returns_proceed result)
  | cons s ss ihss =>
    cases htyped with
    | cons head_typed tail_typed =>
      refine Safe.bind (ih.stmt h hactive head_typed) ?_
      rintro flow L' hgrows ⟨hreturns, hnext⟩
      cases flow with
      | proceed => exact ihss (hnext rfl) (hgrows.le_active hactive) tail_typed
      | returned value => exact Safe.pure hreturns

theorem execBlock (ih : SafeAt signatures program later fuel) {L : Layout} {env last : Visible}
    {result : Ty} {block : Block Stmt} (h : Situated program later later L env)
    (htyped : BodyTyped signatures result ([] :: env) block.body last) :
    Safe program (Excused later True) L (Logged.execBlock (Logged.execStmt program fuel) block)
      fun flow L' => flow.Returns result ∧ L' = L := by
  have hone := h.sees.one_le
  unfold Logged.execBlock
  split
  · exact Safe.pure ⟨Flow.returns_proceed result, rfl⟩
  · intro r hr
    have hactive : r.machine.frames.active = L.active := by
      rw [hr.frames_eq]
      exact hr.describes.active_eq
    have hinner : Safe program (Excused later True) L
        (Logged.inFrame .block L.active (Logged.execBody (Logged.execStmt program fuel) block.body))
        fun flow L' => flow.Returns result ∧ L' = L := by
      refine Safe.inFrame hone (fun s hs => ⟨trivial, ?_⟩)
        (ih.execBody h.block (Nat.succ_le_succ hone) htyped)
      rw [Event.apply, hs.active_eq]
    rw [← hactive] at hinner
    exact hinner r hr

theorem bindParameters {L : Layout} {scope : List Binding} {outer : Visible}
    {parameters : List Parameter} {values : List Value}
    (h : Situated program later later L (scope :: outer)) (hactive : 2 ≤ L.active)
    (haccepts : List.Forall₂ (fun value (parameter : Parameter) => value.ty = parameter.type.ty)
      values parameters) :
    Safe program (Excused later True) L (Logged.bindParameters parameters values) fun _ L' =>
      Situated program later later L'
        (((parameters.map Parameter.binding).reverse ++ scope) :: outer) := by
  induction haccepts generalizing L scope with
  | nil => exact Safe.pure h
  | @cons value parameter values parameters hvalue _ ih =>
    have hbind : Safe program (Excused later True) L (Logged.bind parameter.binding value)
        fun _ L' => L' = L.declare parameter.binding := Safe.bindVariable hvalue
    refine Safe.bind hbind ?_
    rintro - _ hgrows rfl
    have hrest := ih (h.declare hactive parameter.binding) (hgrows.le_active hactive)
    rw [List.map_cons, List.reverse_cons, List.append_assoc]
    exact hrest

theorem call_succ (typed : ProgramTyped signatures program)
    (ih : SafeAt signatures program later fuel) {L : Layout} {f : FunDecl} {arguments : List Value}
    (hglobals : program.globalScope = later ++ L.declared FrameStack.globalId)
    (hactive : 1 ≤ L.active) (hf : f ∈ program.functions) (haccepts : f.Accepts arguments) :
    Safe program (Excused later True) L (Logged.callFunction program (fuel + 1) f arguments)
      fun value L' => value.ty = f.result ∧ L' = L := by
  have hbody : Safe program (Excused later True) (L.push FrameStack.globalId)
      (do Logged.bindParameters f.parameters arguments
          Logged.execBody (Logged.execStmt program fuel) f.body.body)
      fun flow _ => flow.Returns f.result := by
    have htwo : 2 ≤ (L.push FrameStack.globalId).active := Nat.succ_le_succ hactive
    refine Safe.bind (bindParameters (Situated.call hglobals hactive) htwo haccepts) ?_
    intro _ L' hgrows hsituated
    obtain ⟨last, htyped⟩ := typed.functions f hf
    rw [List.append_nil] at hsituated
    exact ih.execBody hsituated (hgrows.le_active htwo) htyped
  rw [Logged.callFunction]
  refine Safe.bind (Safe.inFrame hactive (fun s _ => ⟨⟨hf, haccepts⟩, rfl⟩) hbody) ?_
  rintro flow _ - ⟨hreturns, rfl⟩
  cases flow with
  | returned value => exact Safe.pure ⟨hreturns value rfl, rfl⟩
  | proceed =>
    simp only [Exec.resultOf]
    split
    · next hvoid => exact Safe.pure ⟨hvoid.symm, rfl⟩
    · exact Safe.raise (.missingReturn f.name f.span)

theorem stmt_succ (typed : ProgramTyped signatures program)
    (ih : SafeAt signatures program later fuel) {L : Layout} {env env' : Visible} {result : Ty}
    {s : Stmt} (h : Situated program later later L env) (hactive : 2 ≤ L.active)
    (htyped : StmtTyped signatures result env s env') :
    Safe program (Excused later True) L (Logged.execStmt program (fuel + 1) s) fun flow L' =>
      flow.Returns result ∧ (flow = .proceed → Situated program later later L' env') := by
  -- blocks and loops leave the layout as it was, and with it what is seen
  have hkeep : ∀ {x : Logged Flow},
      Safe program (Excused later True) L x (fun flow L' => flow.Returns result ∧ L' = L) →
      Safe program (Excused later True) L x fun flow L' =>
        flow.Returns result ∧ (flow = .proceed → Situated program later later L' env) := by
    intro x hx
    refine hx.ensure ?_
    rintro flow _ ⟨hreturns, rfl⟩
    exact ⟨hreturns, fun _ => h⟩
  cases htyped with
  | call span call_type =>
    rw [Logged.execStmt]
    refine Safe.bind (ih.expr_plain h call_type) ?_
    rintro value _ - ⟨-, rfl⟩
    exact Safe.pure ⟨Flow.returns_proceed result, fun _ => h⟩
  | @define scope outer decl typed =>
    rw [Logged.execStmt]
    have hdefine : Safe program (Excused later True) L
        (Logged.define (Logged.evalExpr program fuel) decl)
        fun _ L' => L' = L.declare decl.binding := by
      refine Safe.bind (ih.startValue h typed) ?_
      rintro value _ - ⟨hvalue, rfl⟩
      exact Safe.bindVariable hvalue
    refine Safe.bind hdefine ?_
    rintro - _ - rfl
    exact Safe.pure ⟨Flow.returns_proceed result, fun _ => h.declare hactive decl.binding⟩
  | assign span seen isMutable value_type =>
    rw [Logged.execStmt]
    refine Safe.bind (ih.expr_plain h value_type) ?_
    rintro value _ - ⟨hvalue, rfl⟩
    refine Safe.bind (h.assign typed seen isMutable hvalue span) ?_
    rintro - _ - rfl
    exact Safe.pure ⟨Flow.returns_proceed result, fun _ => h⟩
  | ret span value_type =>
    rw [Logged.execStmt]
    refine Safe.bind (ih.expr_plain h value_type) ?_
    rintro value _ - ⟨hvalue, rfl⟩
    exact Safe.pure ⟨Flow.returns_returned hvalue, fun hflow => by cases hflow⟩
  | retVoid span void =>
    exact Safe.pure ⟨Flow.returns_returned void.symm, fun hflow => by cases hflow⟩
  | ifThenElse span condition_type then_typed else_typed =>
    rw [Logged.execStmt]
    refine Safe.bind (ih.expr_plain h condition_type) ?_
    rintro value _ - ⟨hvalue, rfl⟩
    refine Safe.bind (Safe.truth hvalue _) ?_
    rintro b _ - rfl
    cases b with
    | true => exact hkeep (ih.execBlock h then_typed)
    | false => exact hkeep (ih.execBlock h else_typed)
  | whileDo span condition_type body_typed =>
    rw [Logged.execStmt]
    exact hkeep (ih.loop h condition_type body_typed)

theorem loop_succ (ih : SafeAt signatures program later fuel) {L : Layout} {env bodyEnd : Visible}
    {result : Ty} {condition : Expr} {body : Block Stmt}
    (h : Situated program later later L env) (hcondition : HasType signatures env condition .bool)
    (hbody : BodyTyped signatures result ([] :: env) body.body bodyEnd) :
    Safe program (Excused later True) L (Logged.execWhile program (fuel + 1) condition body)
      fun flow L' => flow.Returns result ∧ L' = L := by
  rw [Logged.execWhile]
  refine Safe.bind (ih.expr_plain h hcondition) ?_
  rintro value _ - ⟨hvalue, rfl⟩
  refine Safe.bind (Safe.truth hvalue _) ?_
  rintro b _ - rfl
  cases b with
  | false => exact Safe.pure ⟨Flow.returns_proceed result, rfl⟩
  | true =>
    refine Safe.bind (ih.execBlock h hbody) ?_
    rintro flow _ - ⟨hreturns, rfl⟩
    cases flow with
    | proceed => exact ih.loop h hcondition hbody
    | returned v => exact Safe.pure ⟨hreturns, rfl⟩

end SafeAt

/-- **Evaluation is safe**, with any fuel and whatever globals are still to come. -/
theorem safeAt {signatures : Signatures} {program : Program}
    (typed : ProgramTyped signatures program) (later : List Binding) (fuel : Nat) :
    SafeAt signatures program later fuel := by
  induction fuel with
  | zero =>
    exact ⟨fun _ _ => Safe.exhausted .exhausted, fun _ _ _ _ => Safe.exhausted .exhausted,
      fun _ _ _ => Safe.exhausted .exhausted, fun _ _ _ => Safe.exhausted .exhausted⟩
  | succ fuel ih =>
    exact ⟨fun h htype => ih.expr_succ typed h htype,
      fun hglobals hactive hf haccepts => ih.call_succ typed hglobals hactive hf haccepts,
      fun h hactive htyped => ih.stmt_succ typed h hactive htyped,
      fun h hcondition hbody => ih.loop_succ h hcondition hbody⟩

end TypedImp
