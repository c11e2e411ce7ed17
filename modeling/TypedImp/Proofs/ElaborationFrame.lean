import TypedImp.Proofs.Typing.Elaboration

/-!
# What checking changes in a program, and what it leaves alone

The rules of elaboration say place by place what a program that passes is made into: a type that was
left to be deduced is replaced by that of the initializer, the bodies of functions and the nested
blocks with statements get numbers, and nothing else is touched.  What is left to show is that no
placeholder stays behind: not in a variable at any depth, not in a parameter, and not in the scopes.

## Why the scopes are followed too

A variable may have been deduced from one that was deduced before it.  The invariant that is carried
through the program is therefore one about the tree of scopes, and each declaration keeps it because
a type is looked at once more before it is declared.

* `BindingTy.Settled`: a type with values, in which nothing is left open.
* `Program.variables`: the variables of a program, at any depth.
* `ScopeTree.AllSettled`: trees that declare settled types only.
* `elaboration_changes_types_and_scopes_only`: **all that checking changes, and what it leaves
  behind**.
-/

namespace TypedImp

/-! ## Types and where they occur -/

/-- A type of values in which nothing stands for another type. -/
structure BindingTy.Settled (b : BindingTy) : Prop where
  isPlaceholder_eq : b.ty.isPlaceholder = false
  hasValues : b.ty.hasValues = true

/-- There are four types of values, and none of them has a part that is left open. -/
theorem Ty.isPlaceholder_of_hasValues {t : Ty} (h : t.hasValues = true) :
    t.isPlaceholder = false := by
  simp only [Ty.hasValues, Bool.or_eq_true, decide_eq_true_eq] at h
  rcases h with ((rfl | rfl) | rfl) | rfl <;> rfl

theorem BindingTy.settled_of_hasValues {b : BindingTy} (h : b.ty.hasValues = true) : b.Settled :=
  ⟨Ty.isPlaceholder_of_hasValues h, h⟩

mutual

/-- The variables that are defined in a statement, at any depth. -/
def Stmt.variables : Stmt → List VarDecl
  | .define decl => [decl]
  | .ifThenElse _ thenBlock elseBlock _ => thenBlock.variables ++ elseBlock.variables
  | .whileDo _ body _ => body.variables
  | .call .. | .assign .. | .ret .. => []

/-- The variables that are defined in a block, at any depth. -/
def Block.variables : Block Stmt → List VarDecl
  | ⟨body, _, _⟩ => variablesIn body

/-- The variables that are defined in a list of statements, at any depth. -/
def variablesIn : List Stmt → List VarDecl
  | [] => []
  | s :: ss => s.variables ++ variablesIn ss

end

/-- The variables of a program: the globals and those of all functions, at any depth. -/
def Program.variables (p : Program) : List VarDecl :=
  p.globals ++ p.functions.flatMap fun f => variablesIn f.body.body

namespace ScopeTree

/-- Every declaration of every scope has a settled type. -/
def AllSettled (t : ScopeTree) : Prop :=
  ∀ id scope, t.get? id = some scope → ∀ b ∈ scope.bindings, b.type.Settled

theorem AllSettled.add {t : ScopeTree} (h : t.AllSettled) (parent : Nat) (result : Option Ty) :
    (t.add parent result).AllSettled := by
  intro id scope hs b hb
  rw [get?_add] at hs
  by_cases hid : id = t.size + 1
  · rw [if_pos hid] at hs
    obtain rfl := Option.some.inj hs
    exact absurd hb List.not_mem_nil
  · rw [if_neg hid] at hs
    exact h id scope hs b hb

/-- The empty tree has no declarations, and the first tree is it with one scope. -/
theorem allSettled_initial : initial.AllSettled :=
  AllSettled.add (t := ⟨#[]⟩) (fun id scope hs => by cases id <;> cases hs) 0 none

theorem AllSettled.declare {t t' : ScopeTree} (h : t.AllSettled) {id : Nat} {b : Binding}
    {span : Span} (hb : b.type.Settled) (hd : t.declare id b span = .ok t') : t'.AllSettled := by
  obtain ⟨scope, hs, -, -, hget⟩ := declare_eq_ok hd
  intro j scope' hj c hc
  rw [hget] at hj
  by_cases hid : j = id
  · rw [if_pos hid] at hj
    obtain rfl := Option.some.inj hj
    rcases List.mem_append.mp hc with hc | hc
    · exact h id scope hs c hc
    · obtain rfl := List.mem_singleton.mp hc
      exact hb
  · rw [if_neg hid] at hj
    exact h j scope' hj c hc

end ScopeTree

/-! ## Elaboration settles types -/

section Settled

variable {signatures : Signatures}

theorem VarDecl.Elaborates.settled {id : Nat} {t t' : ScopeTree} {decl decl' : VarDecl}
    (h : decl.Elaborates signatures id t decl' t') (ht : t.AllSettled) :
    t'.AllSettled ∧ decl'.type.Settled := by
  have hsettled := BindingTy.settled_of_hasValues h.hasValues
  exact ⟨ht.declare (b := decl'.binding) hsettled h.declared, hsettled⟩

-- The invariant of the tree goes from rule to rule in the order in which the trees are handed on.
mutual

theorem Stmt.Elaborates.settled {id : Nat} {t t' : ScopeTree} {s s' : Stmt} :
    s.Elaborates signatures id t s' t' → t.AllSettled →
      t'.AllSettled ∧ ∀ decl ∈ s'.variables, decl.type.Settled
  | .call _ _, ht | .assign _, ht | .ret _, ht => by
    simp only [Stmt.variables, List.not_mem_nil, false_implies, implies_true, and_true]
    exact ht
  | .define hdecl, ht => by
    obtain ⟨ht', hsettled⟩ := hdecl.settled ht
    simp only [Stmt.variables, List.forall_mem_singleton]
    exact ⟨ht', hsettled⟩
  | .ifThenElse _ _ hthen helse, ht => by
    obtain ⟨ht₁, hthenVariables⟩ := hthen.settled ht
    obtain ⟨ht', helseVariables⟩ := helse.settled ht₁
    simp only [Stmt.variables, List.forall_mem_append]
    exact ⟨ht', hthenVariables, helseVariables⟩
  | .whileDo _ _ hbody, ht => by
    simp only [Stmt.variables]
    exact hbody.settled ht

theorem Block.Elaborates.settled {id : Nat} {t t' : ScopeTree} {b b' : Block Stmt} :
    b.Elaborates signatures id t b' t' → t.AllSettled →
      t'.AllSettled ∧ ∀ decl ∈ b'.variables, decl.type.Settled
  | .empty _ _ _ _, ht => by
    simp only [Block.variables, variablesIn, List.not_mem_nil, false_implies, implies_true,
      and_true]
    exact ht
  | .filled _ _ _ hbody, ht => by
    simp only [Block.variables]
    exact hbody.settled (ht.add _ _)

theorem BodyElaborates.settled {id : Nat} {t t' : ScopeTree} {ss ss' : List Stmt} :
    BodyElaborates signatures id t ss ss' t' → t.AllSettled →
      t'.AllSettled ∧ ∀ decl ∈ variablesIn ss', decl.type.Settled
  | .nil _ _, ht => by
    simp only [variablesIn, List.not_mem_nil, false_implies, implies_true, and_true]
    exact ht
  | .cons hhead htail, ht => by
    obtain ⟨ht₁, hheadVariables⟩ := hhead.settled ht
    obtain ⟨ht', htailVariables⟩ := htail.settled ht₁
    simp only [variablesIn, List.forall_mem_append]
    exact ⟨ht', hheadVariables, htailVariables⟩

end

theorem allSettled_of_declareParameters {id : Nat} : ∀ (parameters : List Parameter)
    {t t' : ScopeTree}, t.AllSettled → (∀ parameter ∈ parameters, parameter.type.Settled) →
      declareParameters id t parameters = .ok t' → t'.AllSettled
  | [], t, t', ht, _, h => by
    cases h
    exact ht
  | parameter :: parameters, t, t', ht, hsettled, h => by
    obtain ⟨hfirst, hrest⟩ := List.forall_mem_cons.mp hsettled
    obtain ⟨t₁, hdeclare, hdeclared⟩ := Error.exists_of_bind_eq_ok h
    exact allSettled_of_declareParameters parameters
      (ht.declare (b := parameter.binding) hfirst hdeclare) hrest hdeclared

theorem FunDecl.Elaborates.settled {t t' : ScopeTree} {f f' : FunDecl}
    (h : f.Elaborates signatures t f' t') (ht : t.AllSettled) :
    t'.AllSettled ∧ (∀ decl ∈ variablesIn f'.body.body, decl.type.Settled) ∧
      ∀ parameter ∈ f'.parameters, parameter.type.Settled := by
  have hparameters : ∀ parameter ∈ f.parameters, parameter.type.Settled := by
    intro parameter hmem
    exact BindingTy.settled_of_hasValues (h.haveValues parameter hmem)
  obtain ⟨t₁, hdeclared, hbody⟩ := h.body
  have ht₁ := allSettled_of_declareParameters f.parameters
    (ht.add ScopeTree.globalId (some f.result)) hparameters hdeclared
  obtain ⟨ht', hvariables⟩ := hbody.settled ht₁
  rw [h.parameters_eq]
  exact ⟨ht', hvariables, hparameters⟩

/-- What every step keeps of the tree and shows of its item, holds behind all steps and of all
items. -/
theorem InOrder.keeps {α : Type} {R : ScopeTree → α → α → ScopeTree → Prop} {P : ScopeTree → Prop}
    {Q : α → Prop} (hstep : ∀ {t item item' t'}, R t item item' t' → P t → P t' ∧ Q item')
    {t t' : ScopeTree} {items items' : List α} (h : InOrder R t items items' t') (ht : P t) :
    P t' ∧ ∀ item' ∈ items', Q item' := by
  induction h with
  | nil t => exact ⟨ht, fun item' hmem => absurd hmem List.not_mem_nil⟩
  | cons head_related tail_related ih =>
    obtain ⟨ht₁, hitem⟩ := hstep head_related ht
    obtain ⟨ht', hitems⟩ := ih ht₁
    exact ⟨ht', List.forall_mem_cons.mpr ⟨hitem, hitems⟩⟩

end Settled

/-- **All that checking changes, and what it leaves behind.**  A program that passes becomes another
by the rules of elaboration, with the signatures of its own functions; and no variable at any depth,
no parameter and no declaration of any scope of the result has a placeholder for its type, or a type
without values. -/
theorem elaboration_changes_types_and_scopes_only {p : Program} {c : Checked}
    (h : checkProgram p = .ok c) :
    (∃ signatures : Signatures,
      (∀ name, signatures.get? name = (p.function? name).map FunDecl.signature) ∧
        Elaborated signatures p c) ∧
      (∀ decl ∈ c.program.variables, decl.type.Settled) ∧
      (∀ f ∈ c.program.functions, ∀ parameter ∈ f.parameters, parameter.type.Settled) ∧
      c.scopes.AllSettled := by
  obtain ⟨signatures, hnames, helaborated⟩ := checkProgram_eq_ok_iff.mp h
  obtain ⟨-, hget⟩ := get?_of_collectSignatures p.functions hnames
  obtain ⟨t, hglobals, hfunctions⟩ := helaborated
  obtain ⟨ht, hglobalTypes⟩ := hglobals.keeps (P := ScopeTree.AllSettled)
    (Q := fun decl => decl.type.Settled) VarDecl.Elaborates.settled ScopeTree.allSettled_initial
  obtain ⟨hscopes, hfunctionTypes⟩ := hfunctions.keeps (P := ScopeTree.AllSettled)
    (Q := fun f => (∀ decl ∈ variablesIn f.body.body, decl.type.Settled) ∧
      ∀ parameter ∈ f.parameters, parameter.type.Settled)
    FunDecl.Elaborates.settled ht
  refine ⟨⟨signatures, ?_, t, hglobals, hfunctions⟩, ?_, ?_, hscopes⟩
  · intro name
    rw [hget name]
    rfl
  · intro decl hmem
    rcases List.mem_append.mp hmem with hmem | hmem
    · exact hglobalTypes decl hmem
    · obtain ⟨f, hf, hdecl⟩ := List.mem_flatMap.mp hmem
      exact (hfunctionTypes f hf).1 decl hdecl
  · intro f hf
    exact (hfunctionTypes f hf).2

/-- One name at three depths, each time with a type to be deduced.  The inner two read the outer
variable that they hide. -/
def hiddenNames : Program where
  globals := [⟨"x", ⟨.deduced, false⟩, some (.number (.int32 7) "7" .unlocated), .unlocated⟩]
  functions :=
    [⟨"main", [⟨"n", ⟨.int32, false⟩, .unlocated⟩], .void,
      .unresolved
        [.define ⟨"x", ⟨.deduced, true⟩,
          some (.binary .eq (.name "x" .unlocated) (.name "n" .unlocated) .unlocated), .unlocated⟩,
        .ifThenElse (.name "x" .unlocated)
          (.unresolved
            [.define ⟨"x", ⟨.deduced, false⟩, some (.unary .not (.name "x" .unlocated) .unlocated),
              .unlocated⟩,
            .define ⟨"y", ⟨.deduced, false⟩, some (.string "deep" .unlocated), .unlocated⟩]
            .unlocated)
          (.unresolved [] .unlocated) .unlocated]
        .unlocated, .unlocated⟩]

/-- The types that were left open become three different ones, and only they and the numbers of two
blocks change. -/
theorem hiddenNames_elaboration : ∃ c, checkProgram hiddenNames = .ok c ∧
    (c.program.variables.map fun decl => (decl.name, decl.type)) =
      [("x", ⟨.int32, false⟩), ("x", ⟨.bool, true⟩), ("x", ⟨.bool, false⟩),
        ("y", ⟨.string, false⟩)] ∧
    (∃ signatures : Signatures,
      (∀ name, signatures.get? name = (hiddenNames.function? name).map FunDecl.signature) ∧
        Elaborated signatures hiddenNames c) ∧
      (∀ decl ∈ c.program.variables, decl.type.Settled) ∧
      (∀ f ∈ c.program.functions, ∀ parameter ∈ f.parameters, parameter.type.Settled) ∧
      c.scopes.AllSettled :=
  ⟨_, rfl, rfl, elaboration_changes_types_and_scopes_only rfl⟩

end TypedImp
