import TypedImp.Proofs.Typing.BlockScopes

/-!
# Elaboration

A program that passes is handed back with two things filled in: types that were left to be deduced,
and the numbers of scopes.  The rules below relate a tree before and after, and a tree passes if and
only if it is related to what is handed back.

## Why the rules carry the scopes

The type of an initializer depends on what can be seen at its place.  An initializer may read an
outer variable that has the name of the one being defined, so it counts that the variable is
declared behind its initializer and not before.  The rules say so by taking the type in the tree of
scopes before the declaration, and handing the tree behind it to what follows.

* `VarDecl.Elaborates`: what becomes of a variable.
* `Stmt.Elaborates`, `Block.Elaborates`, `BodyElaborates`: what becomes of statements.
* `FunDecl.Elaborates`, `Elaborated`: what becomes of functions and of programs.
* `checkVarDecl_eq_ok_iff`, `checkBody_eq_ok_iff`, `checkFunction_eq_ok_iff`,
  `checkProgram_eq_ok_iff`: **passing is being related to the result**.
-/

namespace TypedImp

/-! ## Variables -/

/-- In the scope `id` of the tree `t`, the variable `decl` becomes `decl'`, and its declaration
gives the tree `t'`.  A type that is written stays; in place of the placeholder stands the type of
the initializer. -/
structure VarDecl.Elaborates (signatures : Signatures) (id : Nat) (t : ScopeTree)
    (decl decl' : VarDecl) (t' : ScopeTree) : Prop where
  name_eq : decl'.name = decl.name
  initializer_eq : decl'.initializer = decl.initializer
  span_eq : decl'.span = decl.span
  isMutable_eq : decl'.type.isMutable = decl.type.isMutable
  /-- The placeholder needs an initializer. -/
  deduced : decl.type.ty = .deduced → ∃ e, decl.initializer = some e
  written : decl.type.ty ≠ .deduced → decl'.type.ty = decl.type.ty
  /-- An initializer has the type of the variable, in the tree before the declaration. -/
  typed : ∀ e, decl.initializer = some e → typeOf ⟨signatures, t, id⟩ e = .ok decl'.type.ty
  hasValues : decl'.type.ty.hasValues = true
  declared : t.declare id decl'.binding decl.span = .ok t'

namespace Check

variable {α β : Type} {t t' : ScopeTree}

/-- If the first of two checks ends well, the second goes on from there. -/
theorem bind_of_ok {x : Check α} {f : α → Check β} {a : α} (h : x t = .ok a t') :
    (x >>= f) t = f a t' := by
  change EStateM.bind x f t = f a t'
  unfold EStateM.bind
  rw [h]

theorem ofExcept_of_ok {r : Except Error α} {a : α} (h : r = .ok a) : ofExcept r t = .ok a t := by
  rw [h]
  rfl

theorem declare_of_ok {id : Nat} {b : Binding} {span : Span} (h : t.declare id b span = .ok t') :
    declare id b span t = .ok () t' := by
  change (ofExcept (t.declare id b span) >>= fun s => set s : Check Unit) t = _
  rw [bind_of_ok (ofExcept_of_ok h)]
  rfl

theorem addScope_eq (t : ScopeTree) (parent : Nat) (result : Option Ty) :
    addScope parent result t = .ok (t.size + 1) (t.add parent result) := by
  rw [← ScopeTree.size_add t parent result]
  rfl

end Check

theorem requireValues_eq_ok_iff {name : String} {t : Ty} {span : Span} {u : Unit} :
    requireValues name t span = .ok u ↔ t.hasValues = true := by
  unfold requireValues
  by_cases h : t.hasValues = true
  · simp [h]
  · simp [h]

section Variables

variable {signatures : Signatures} {id : Nat} {t t' : ScopeTree} {decl decl' : VarDecl}

/-- What the initializer says of the type that a variable gets. -/
theorem typed_of_checkInitializer {init : Option (Expr × Ty)} {ty : Ty}
    (hinit : checkInitializer signatures id decl.initializer t = .ok init t')
    (hsettled : settleType decl init = .ok ty) :
    t' = t ∧ (decl.type.ty = .deduced → ∃ e, decl.initializer = some e) ∧
      (decl.type.ty ≠ .deduced → ty = decl.type.ty) ∧
      ∀ e, decl.initializer = some e → typeOf ⟨signatures, t, id⟩ e = .ok ty := by
  cases hinitializer : decl.initializer with
  | none =>
    rw [hinitializer] at hinit
    obtain ⟨rfl, rfl⟩ := Check.pure_eq_ok hinit
    rw [settleType_none] at hsettled
    split at hsettled
    · cases hsettled
    · next hwritten =>
      cases hsettled
      exact ⟨rfl, fun hdeduced => absurd hdeduced hwritten, fun _ => rfl, nofun⟩
  | some e =>
    rw [hinitializer] at hinit
    obtain ⟨s, t₁, htype, hpure⟩ := Check.bind_eq_ok hinit
    obtain ⟨hs, rfl⟩ := Check.typeIn_eq_ok htype
    obtain ⟨rfl, rfl⟩ := Check.pure_eq_ok hpure
    obtain rfl := eq_of_settleType hsettled
    refine ⟨rfl, fun _ => ⟨e, rfl⟩, fun hwritten => ?_, ?_⟩
    · rw [settleType_some, if_neg hwritten] at hsettled
      split at hsettled
      · cases hsettled
      · exact (Except.ok.inj hsettled).symm
    · rintro e' ⟨⟩
      exact hs

theorem elaborates_of_checkVarDecl (h : checkVarDecl signatures id decl t = .ok decl' t') :
    decl.Elaborates signatures id t decl' t' := by
  obtain ⟨init, t₁, hinit, h₁⟩ := Check.bind_eq_ok h
  obtain ⟨ty, t₂, hsettle, h₂⟩ := Check.bind_eq_ok h₁
  obtain ⟨u, t₃, hvalues, h₃⟩ := Check.bind_eq_ok h₂
  obtain ⟨u', t₄, hdeclare, hpure⟩ := Check.bind_eq_ok h₃
  obtain ⟨hsettled, rfl⟩ := Check.ofExcept_eq_ok hsettle
  obtain ⟨hrequired, rfl⟩ := Check.ofExcept_eq_ok hvalues
  obtain ⟨rfl, rfl⟩ := Check.pure_eq_ok hpure
  obtain ⟨rfl, hdeduced, hwritten, htyped⟩ := typed_of_checkInitializer hinit hsettled
  exact ⟨rfl, rfl, rfl, rfl, hdeduced, hwritten, htyped, requireValues_eq_ok_iff.mp hrequired,
    Check.declare_eq_ok hdeclare⟩

/-- The type of a variable is settled as the rules say. -/
theorem VarDecl.Elaborates.exists_checkInitializer (h : decl.Elaborates signatures id t decl' t') :
    ∃ init, checkInitializer signatures id decl.initializer t = .ok init t ∧
      settleType decl init = .ok decl'.type.ty := by
  cases hinitializer : decl.initializer with
  | none =>
    refine ⟨none, rfl, ?_⟩
    have hwritten : decl.type.ty ≠ .deduced := by
      intro hdeduced
      obtain ⟨e, he⟩ := h.deduced hdeduced
      rw [hinitializer] at he
      cases he
    rw [settleType_none, if_neg hwritten, h.written hwritten]
  | some e =>
    refine ⟨some (e, decl'.type.ty),
      Check.bind_of_ok (Check.ofExcept_of_ok (h.typed e hinitializer)), ?_⟩
    rw [settleType_some]
    by_cases hdeduced : decl.type.ty = .deduced
    · rw [if_pos hdeduced]
    · rw [if_neg hdeduced, h.written hdeduced, if_neg (by simp)]

theorem checkVarDecl_of_elaborates (h : decl.Elaborates signatures id t decl' t') :
    checkVarDecl signatures id decl t = .ok decl' t' := by
  obtain ⟨init, hinit, hsettle⟩ := h.exists_checkInitializer
  have hresult : { decl with type := ⟨decl'.type.ty, decl.type.isMutable⟩ } = decl' := by
    rw [← h.isMutable_eq, ← h.name_eq, ← h.initializer_eq, ← h.span_eq]
  have hdeclared := h.declared
  rw [← hresult] at hdeclared
  refine (Check.bind_of_ok hinit).trans ?_
  refine (Check.bind_of_ok (Check.ofExcept_of_ok hsettle)).trans ?_
  refine (Check.bind_of_ok (Check.ofExcept_of_ok
    ((requireValues_eq_ok_iff (u := ())).mpr h.hasValues))).trans ?_
  refine (Check.bind_of_ok (Check.declare_of_ok hdeclared)).trans ?_
  rw [hresult]
  rfl

/-- A variable passes if and only if it becomes what the rules say. -/
theorem checkVarDecl_eq_ok_iff : checkVarDecl signatures id decl t = .ok decl' t' ↔
    decl.Elaborates signatures id t decl' t' :=
  ⟨elaborates_of_checkVarDecl, checkVarDecl_of_elaborates⟩

end Variables

/-! ## Statements -/

mutual

/-- In the scope `id` of the tree `t`, the first statement becomes the second, and what they declare
gives the tree at the end.  A statement that neither defines a variable nor holds a block stays as
it is, and so does the tree. -/
inductive Stmt.Elaborates (signatures : Signatures) :
    Nat → ScopeTree → Stmt → Stmt → ScopeTree → Prop
  | call {id : Nat} {t : ScopeTree} {callee : Expr} {arguments : List Expr} {callSpan : Span}
      {ty : Ty} (span : Span)
      (typed : typeOf ⟨signatures, t, id⟩ (.call callee arguments callSpan) = .ok ty) :
      Stmt.Elaborates signatures id t (.call callee arguments callSpan span)
        (.call callee arguments callSpan span) t
  | define {id : Nat} {t t' : ScopeTree} {decl decl' : VarDecl}
      (elaborates : decl.Elaborates signatures id t decl' t') :
      Stmt.Elaborates signatures id t (.define decl) (.define decl') t'
  | assign {id : Nat} {t : ScopeTree} {name : String} {value : Expr} {span : Span}
      (passes : checkAssignment signatures id name value span t = .ok () t) :
      Stmt.Elaborates signatures id t (.assign name value span) (.assign name value span) t
  | ret {id : Nat} {t : ScopeTree} {value : Option Expr} {span : Span}
      (passes : checkReturn signatures id value span t = .ok () t) :
      Stmt.Elaborates signatures id t (.ret value span) (.ret value span) t
  | ifThenElse {id : Nat} {t t₁ t' : ScopeTree} {condition : Expr}
      {thenBlock thenBlock' elseBlock elseBlock' : Block Stmt} (span : Span)
      (passes : checkCondition signatures id condition t = .ok () t)
      (then_elaborates : Block.Elaborates signatures id t thenBlock thenBlock' t₁)
      (else_elaborates : Block.Elaborates signatures id t₁ elseBlock elseBlock' t') :
      Stmt.Elaborates signatures id t (.ifThenElse condition thenBlock elseBlock span)
        (.ifThenElse condition thenBlock' elseBlock' span) t'
  | whileDo {id : Nat} {t t' : ScopeTree} {condition : Expr} {body body' : Block Stmt}
      (span : Span) (passes : checkCondition signatures id condition t = .ok () t)
      (body_elaborates : Block.Elaborates signatures id t body body' t') :
      Stmt.Elaborates signatures id t (.whileDo condition body span)
        (.whileDo condition body' span) t'

/-- A block with statements gets the next scope, and the statements become others in it.  An empty
block stays as it is. -/
inductive Block.Elaborates (signatures : Signatures) :
    Nat → ScopeTree → Block Stmt → Block Stmt → ScopeTree → Prop
  | empty (id : Nat) (t : ScopeTree) (number : Nat) (span : Span) :
      Block.Elaborates signatures id t ⟨[], number, span⟩ ⟨[], number, span⟩ t
  | filled {id : Nat} {t t' : ScopeTree} {body body' : List Stmt} (number : Nat) (span : Span)
      (nonempty : body ≠ [])
      (elaborates : BodyElaborates signatures (t.size + 1) (t.add id none) body body' t') :
      Block.Elaborates signatures id t ⟨body, number, span⟩ ⟨body', t.size + 1, span⟩ t'

/-- Statements one after the other, each in the tree that the one before it left. -/
inductive BodyElaborates (signatures : Signatures) :
    Nat → ScopeTree → List Stmt → List Stmt → ScopeTree → Prop
  | nil (id : Nat) (t : ScopeTree) : BodyElaborates signatures id t [] [] t
  | cons {id : Nat} {t t₁ t' : ScopeTree} {s s' : Stmt} {ss ss' : List Stmt}
      (head_elaborates : Stmt.Elaborates signatures id t s s' t₁)
      (tail_elaborates : BodyElaborates signatures id t₁ ss ss' t') :
      BodyElaborates signatures id t (s :: ss) (s' :: ss') t'

end

section Statements

variable {signatures : Signatures}

-- From the check to the rules the induction is on the syntax.
mutual

theorem elaborates_of_checkStmt : ∀ (s : Stmt) {id : Nat} {t t' : ScopeTree} {s' : Stmt},
    checkStmt signatures id s t = .ok s' t' → s.Elaborates signatures id t s' t'
  | .call callee arguments callSpan span, id, t, t', s', h => by
    simp only [checkStmt] at h
    obtain ⟨ty, t₁, htype, hpure⟩ := Check.bind_eq_ok h
    obtain ⟨hty, rfl⟩ := Check.typeIn_eq_ok htype
    obtain ⟨rfl, rfl⟩ := Check.pure_eq_ok hpure
    exact .call span hty
  | .define decl, id, t, t', s', h => by
    simp only [checkStmt] at h
    obtain ⟨decl', t₁, hdecl, hpure⟩ := Check.bind_eq_ok h
    obtain ⟨rfl, rfl⟩ := Check.pure_eq_ok hpure
    exact .define (elaborates_of_checkVarDecl hdecl)
  | .assign name value span, id, t, t', s', h => by
    simp only [checkStmt] at h
    obtain ⟨u, t₁, hassign, hpure⟩ := Check.bind_eq_ok h
    obtain rfl := tree_of_checkAssignment hassign
    obtain ⟨rfl, rfl⟩ := Check.pure_eq_ok hpure
    exact .assign hassign
  | .ret value span, id, t, t', s', h => by
    simp only [checkStmt] at h
    obtain ⟨u, t₁, hreturn, hpure⟩ := Check.bind_eq_ok h
    obtain rfl := tree_of_checkReturn hreturn
    obtain ⟨rfl, rfl⟩ := Check.pure_eq_ok hpure
    exact .ret hreturn
  | .ifThenElse condition thenBlock elseBlock span, id, t, t', s', h => by
    simp only [checkStmt] at h
    obtain ⟨u, t₁, hcondition, hrest⟩ := Check.bind_eq_ok h
    obtain rfl := tree_of_checkAgainst hcondition
    obtain ⟨thenBlock', t₂, hthen, hrest⟩ := Check.bind_eq_ok hrest
    obtain ⟨elseBlock', t₃, helse, hpure⟩ := Check.bind_eq_ok hrest
    obtain ⟨rfl, rfl⟩ := Check.pure_eq_ok hpure
    exact .ifThenElse span hcondition (elaborates_of_checkBlock thenBlock hthen)
      (elaborates_of_checkBlock elseBlock helse)
  | .whileDo condition body span, id, t, t', s', h => by
    simp only [checkStmt] at h
    obtain ⟨u, t₁, hcondition, hrest⟩ := Check.bind_eq_ok h
    obtain rfl := tree_of_checkAgainst hcondition
    obtain ⟨body', t₂, hbody, hpure⟩ := Check.bind_eq_ok hrest
    obtain ⟨rfl, rfl⟩ := Check.pure_eq_ok hpure
    exact .whileDo span hcondition (elaborates_of_checkBlock body hbody)

theorem elaborates_of_checkBlock : ∀ (b : Block Stmt) {id : Nat} {t t' : ScopeTree}
    {b' : Block Stmt}, checkBlock signatures id b t = .ok b' t' →
    b.Elaborates signatures id t b' t'
  | ⟨[], number, span⟩, id, t, t', b', h => by
    simp only [checkBlock] at h
    obtain ⟨rfl, rfl⟩ := Check.pure_eq_ok h
    exact .empty id t' number span
  | ⟨s :: ss, number, span⟩, id, t, t', b', h => by
    simp only [checkBlock] at h
    obtain ⟨new, t₁, hadd, hrest⟩ := Check.bind_eq_ok h
    obtain ⟨rfl, rfl⟩ := Check.addScope_eq_ok hadd
    obtain ⟨first, t₂, hfirst, hrest⟩ := Check.bind_eq_ok hrest
    obtain ⟨rest, t₃, hss, hpure⟩ := Check.bind_eq_ok hrest
    obtain ⟨rfl, rfl⟩ := Check.pure_eq_ok hpure
    exact .filled number span (List.cons_ne_nil s ss)
      (.cons (elaborates_of_checkStmt s hfirst) (elaborates_of_checkBody ss hss))

theorem elaborates_of_checkBody : ∀ (ss : List Stmt) {id : Nat} {t t' : ScopeTree}
    {ss' : List Stmt}, checkBody signatures id ss t = .ok ss' t' →
    BodyElaborates signatures id t ss ss' t'
  | [], id, t, t', ss', h => by
    simp only [checkBody] at h
    obtain ⟨rfl, rfl⟩ := Check.pure_eq_ok h
    exact .nil id t'
  | s :: ss, id, t, t', ss', h => by
    simp only [checkBody] at h
    obtain ⟨first, t₁, hfirst, hrest⟩ := Check.bind_eq_ok h
    obtain ⟨rest, t₂, hss, hpure⟩ := Check.bind_eq_ok hrest
    obtain ⟨rfl, rfl⟩ := Check.pure_eq_ok hpure
    exact .cons (elaborates_of_checkStmt s hfirst) (elaborates_of_checkBody ss hss)

end

-- From the rules to the check it is on the derivation.
mutual

theorem checkStmt_of_elaborates : ∀ {id : Nat} {t t' : ScopeTree} {s s' : Stmt},
    s.Elaborates signatures id t s' t' → checkStmt signatures id s t = .ok s' t'
  | id, t, _, _, _, .call span typed => by
    simp only [checkStmt]
    exact Check.bind_of_ok (Check.ofExcept_of_ok typed)
  | id, t, _, _, _, .define elaborates => by
    simp only [checkStmt]
    exact Check.bind_of_ok (checkVarDecl_of_elaborates elaborates)
  | id, t, _, _, _, .assign passes => by
    simp only [checkStmt]
    exact Check.bind_of_ok passes
  | id, t, _, _, _, .ret passes => by
    simp only [checkStmt]
    exact Check.bind_of_ok passes
  | id, t, _, _, _, .ifThenElse span passes hthen helse => by
    simp only [checkStmt]
    refine (Check.bind_of_ok passes).trans ?_
    refine (Check.bind_of_ok (checkBlock_of_elaborates hthen)).trans ?_
    exact Check.bind_of_ok (checkBlock_of_elaborates helse)
  | id, t, _, _, _, .whileDo span passes hbody => by
    simp only [checkStmt]
    refine (Check.bind_of_ok passes).trans ?_
    exact Check.bind_of_ok (checkBlock_of_elaborates hbody)

theorem checkBlock_of_elaborates : ∀ {id : Nat} {t t' : ScopeTree} {b b' : Block Stmt},
    b.Elaborates signatures id t b' t' → checkBlock signatures id b t = .ok b' t'
  | id, t, _, _, _, .empty _ _ number span => by
    simp only [checkBlock]
    rfl
  | id, t, _, _, _, .filled number span nonempty elaborates => by
    have hbody := checkBody_of_elaborates elaborates
    cases elaborates with
    | nil => exact absurd rfl nonempty
    | cons head_elaborates tail_elaborates =>
      simp only [checkBody, checkBlock] at hbody ⊢
      obtain ⟨first, t₂, hfirst, hrest⟩ := Check.bind_eq_ok hbody
      obtain ⟨rest, t₃, hss, hpure⟩ := Check.bind_eq_ok hrest
      cases hpure
      refine (Check.bind_of_ok (Check.addScope_eq t id none)).trans ?_
      refine (Check.bind_of_ok hfirst).trans ?_
      exact Check.bind_of_ok hss

theorem checkBody_of_elaborates : ∀ {id : Nat} {t t' : ScopeTree} {ss ss' : List Stmt},
    BodyElaborates signatures id t ss ss' t' → checkBody signatures id ss t = .ok ss' t'
  | id, t, _, _, _, .nil _ _ => by
    simp only [checkBody]
    rfl
  | id, t, _, _, _, .cons head_elaborates tail_elaborates => by
    simp only [checkBody]
    refine (Check.bind_of_ok (checkStmt_of_elaborates head_elaborates)).trans ?_
    exact Check.bind_of_ok (checkBody_of_elaborates tail_elaborates)

end

/-- Statements pass if and only if they become what the rules say. -/
theorem checkBody_eq_ok_iff {id : Nat} {t t' : ScopeTree} {ss ss' : List Stmt} :
    checkBody signatures id ss t = .ok ss' t' ↔ BodyElaborates signatures id t ss ss' t' :=
  ⟨elaborates_of_checkBody ss, checkBody_of_elaborates⟩

end Statements

/-! ## Functions -/

/-- Declares parameters in a scope, in order. -/
def declareParameters (id : Nat) (t : ScopeTree) (parameters : List Parameter) :
    Except Error ScopeTree :=
  parameters.foldlM (fun t parameter => t.declare id parameter.binding parameter.span) t

/-- Behind the tree `t`, the function `f` becomes `f'`: its body gets the next scope, which declares
the parameters, and the statements become others in it. -/
structure FunDecl.Elaborates (signatures : Signatures) (t : ScopeTree) (f f' : FunDecl)
    (t' : ScopeTree) : Prop where
  name_eq : f'.name = f.name
  parameters_eq : f'.parameters = f.parameters
  result_eq : f'.result = f.result
  span_eq : f'.span = f.span
  bodySpan_eq : f'.body.span = f.body.span
  scope_eq : f'.body.scope = t.size + 1
  haveValues : ∀ parameter ∈ f.parameters, parameter.type.ty.hasValues = true
  body : ∃ t₁, declareParameters (t.size + 1) (t.add ScopeTree.globalId (some f.result))
      f.parameters = .ok t₁ ∧
    BodyElaborates signatures (t.size + 1) t₁ f.body.body f'.body.body t'

section Functions

variable {signatures : Signatures} {id : Nat}

theorem checkParameters_eq_ok_iff : ∀ (parameters : List Parameter) {t t' : ScopeTree} {u : Unit},
    checkParameters id parameters t = .ok u t' ↔
      (∀ parameter ∈ parameters, parameter.type.ty.hasValues = true) ∧
        declareParameters id t parameters = .ok t'
  | [], t, t', u => by
    constructor
    · intro h
      obtain ⟨-, rfl⟩ := Check.pure_eq_ok h
      exact ⟨fun parameter hmem => absurd hmem List.not_mem_nil, rfl⟩
    · rintro ⟨-, h⟩
      cases h
      rfl
  | parameter :: parameters, t, t', u => by
    simp only [checkParameters, declareParameters, List.foldlM_cons]
    constructor
    · intro h
      obtain ⟨u₁, t₁, hvalues, hrest⟩ := Check.bind_eq_ok h
      obtain ⟨hrequired, rfl⟩ := Check.ofExcept_eq_ok hvalues
      obtain ⟨u₂, t₂, hdeclare, hrest⟩ := Check.bind_eq_ok hrest
      obtain ⟨hrestValues, hdeclared⟩ := (checkParameters_eq_ok_iff parameters).mp hrest
      rw [show t₁.declare id parameter.binding parameter.span = .ok t₂ from
        Check.declare_eq_ok hdeclare]
      exact ⟨List.forall_mem_cons.mpr ⟨requireValues_eq_ok_iff.mp hrequired, hrestValues⟩,
        hdeclared⟩
    · rintro ⟨hvalues, h⟩
      obtain ⟨hvalue, hrestValues⟩ := List.forall_mem_cons.mp hvalues
      obtain ⟨t₁, hdeclare, hdeclared⟩ := Error.exists_of_bind_eq_ok h
      refine (Check.bind_of_ok (Check.ofExcept_of_ok
        ((requireValues_eq_ok_iff (u := ())).mpr hvalue))).trans ?_
      refine (Check.bind_of_ok (Check.declare_of_ok hdeclare)).trans ?_
      exact (checkParameters_eq_ok_iff parameters).mpr ⟨hrestValues, hdeclared⟩

/-- A function passes if and only if it becomes what the rules say. -/
theorem checkFunction_eq_ok_iff {f f' : FunDecl} {t t' : ScopeTree} :
    checkFunction signatures f t = .ok f' t' ↔ f.Elaborates signatures t f' t' := by
  constructor
  · intro h
    obtain ⟨id, t₁, hadd, h₁⟩ := Check.bind_eq_ok h
    obtain ⟨u, t₂, hparameters, h₂⟩ := Check.bind_eq_ok h₁
    obtain ⟨body, t₃, hbody, hpure⟩ := Check.bind_eq_ok h₂
    obtain ⟨rfl, rfl⟩ := Check.addScope_eq_ok hadd
    obtain ⟨rfl, rfl⟩ := Check.pure_eq_ok hpure
    obtain ⟨hvalues, hdeclared⟩ := (checkParameters_eq_ok_iff f.parameters).mp hparameters
    exact ⟨rfl, rfl, rfl, rfl, rfl, rfl, hvalues, t₂, hdeclared, checkBody_eq_ok_iff.mp hbody⟩
  · intro h
    obtain ⟨name, parameters, result, ⟨body, scope, bodySpan⟩, span⟩ := f
    obtain ⟨name', parameters', result', ⟨body', scope', bodySpan'⟩, span'⟩ := f'
    obtain ⟨hname, hparameters, hresult, hspan, hbodySpan, hscope, hvalues, hrest⟩ := h
    obtain ⟨t₁, hdeclared, hbody⟩ := hrest
    dsimp only at hname hparameters hresult hspan hbodySpan hscope hvalues hdeclared hbody
    subst hname hparameters hresult hspan hbodySpan hscope
    refine (Check.bind_of_ok (Check.addScope_eq t _ _)).trans ?_
    refine (Check.bind_of_ok ((checkParameters_eq_ok_iff (u := ()) _).mpr
      ⟨hvalues, hdeclared⟩)).trans ?_
    exact Check.bind_of_ok (checkBody_eq_ok_iff.mpr hbody)

end Functions

/-! ## Programs -/

/-- Items one after the other, each in the tree that the one before it left. -/
inductive InOrder {α : Type} (R : ScopeTree → α → α → ScopeTree → Prop) :
    ScopeTree → List α → List α → ScopeTree → Prop
  | nil (t : ScopeTree) : InOrder R t [] [] t
  | cons {t t₁ t' : ScopeTree} {item item' : α} {items items' : List α}
      (head_related : R t item item' t₁) (tail_related : InOrder R t₁ items items' t') :
      InOrder R t (item :: items) (item' :: items') t'

/-- A program and what checking makes of it: first the globals become others, and then the
functions. -/
def Elaborated (signatures : Signatures) (p : Program) (c : Checked) : Prop :=
  ∃ t, InOrder (VarDecl.Elaborates signatures ScopeTree.globalId) .initial p.globals
      c.program.globals t ∧
    InOrder (FunDecl.Elaborates signatures) t p.functions c.program.functions c.scopes

/-- All items of a list pass if and only if they become others in order. -/
theorem collect_eq_iff {α : Type} {check : α → Check α} {R : ScopeTree → α → α → ScopeTree → Prop}
    (hcheck : ∀ item t item' t', check item t = .ok item' t' ↔ R t item item' t') :
    ∀ (items : List α) {t t' : ScopeTree} {items' : List α},
      collect check items t = ⟨[], items', t'⟩ ↔ InOrder R t items items' t' := by
  intro items
  induction items with
  | nil =>
    intro t t' items'
    constructor
    · intro h
      cases h
      exact .nil t
    · intro h
      cases h
      rfl
  | cons item items ih =>
    intro t t' items'
    constructor
    · intro h
      obtain ⟨item', t₁, hitem, herrors, hpassed, hscopes⟩ :=
        collect_cons (by rw [h] : (collect check (item :: items) t).errors = [])
      rw [h] at hpassed hscopes
      dsimp only at hpassed hscopes
      subst hpassed hscopes
      refine .cons ((hcheck item t item' t₁).mp hitem) (ih.mp ?_)
      rw [← herrors]
    · rintro ⟨⟩
      next t₁ item' items' head_related tail_related =>
      have hitem := (hcheck item t item' t₁).mpr head_related
      simp only [collect, hitem, ih.mpr tail_related]

section Collecting

variable {signatures : Signatures} {t t' : ScopeTree}

theorem collect_checkVarDecl_iff {id : Nat} (decls : List VarDecl) {decls' : List VarDecl} :
    collect (checkVarDecl signatures id) decls t = ⟨[], decls', t'⟩ ↔
      InOrder (VarDecl.Elaborates signatures id) t decls decls' t' :=
  collect_eq_iff (fun _ _ _ _ => checkVarDecl_eq_ok_iff) decls

theorem collect_checkFunction_iff (fs : List FunDecl) {fs' : List FunDecl} :
    collect (checkFunction signatures) fs t = ⟨[], fs', t'⟩ ↔
      InOrder (FunDecl.Elaborates signatures) t fs fs' t' :=
  collect_eq_iff (fun _ _ _ _ => checkFunction_eq_ok_iff) fs

end Collecting

/-- **A program passes if and only if it becomes what the rules say**, with the signatures of its
functions. -/
theorem checkProgram_eq_ok_iff {p : Program} {c : Checked} : checkProgram p = .ok c ↔
    ∃ signatures, collectSignatures p.functions [] = ([], signatures) ∧
      Elaborated signatures p c := by
  constructor
  · intro h
    obtain ⟨signatures, hnames, hglobalErrors, hfunctionErrors, rfl⟩ := of_checkProgram_eq_ok h
    refine ⟨signatures, hnames,
      (collect (checkVarDecl signatures ScopeTree.globalId) p.globals .initial).scopes,
      (collect_checkVarDecl_iff p.globals).mp ?_, (collect_checkFunction_iff p.functions).mp ?_⟩
    · rw [← hglobalErrors]
    · rw [← hfunctionErrors]
  · rintro ⟨signatures, hnames, t, hglobals, hfunctions⟩
    have hglobals := (collect_checkVarDecl_iff p.globals).mpr hglobals
    have hfunctions := (collect_checkFunction_iff p.functions).mpr hfunctions
    have hpasses := checkProgram_eq_ok hnames (by rw [hglobals]) (by rw [hglobals, hfunctions])
    simp only [hglobals, hfunctions] at hpasses
    exact hpasses

end TypedImp
