import TypedImp.Proofs.Typing.Elaboration

/-!
# Checking a program a second time

What checking hands back passes again, and the second time nothing changes: neither the program nor
the tree of scopes.  The numbers that the blocks already carry are not read, they are handed out
anew in the same order.

## Why this is not obvious

The first time a variable whose type is left open takes its type from the initializer.  The second
time a type is written, so it is compared with that of the initializer instead.  The two agree as
long as the initializer is looked at in the same scopes both times; and the scopes in front of it
are the same because everything before it was declared with the same types.  With the rules of
elaboration the argument is short: if one tree becomes another, then the other becomes itself, with
the same trees of scopes before and after.

* `VarDecl.Elaborates.again`, `Stmt.Elaborates.again`, `FunDecl.Elaborates.again`: what has been
  elaborated stays as it is.
* `InOrder.collectSignatures_eq`: the functions have the signatures that they had.
* `checking_again_changes_nothing`: **checking twice is checking once**.
-/

namespace TypedImp

section Again

variable {signatures : Signatures}

/-- The type that was filled in is now written, and it is that of the initializer. -/
theorem VarDecl.Elaborates.again {id : Nat} {t t' : ScopeTree} {decl decl' : VarDecl}
    (h : decl.Elaborates signatures id t decl' t') : decl'.Elaborates signatures id t decl' t' where
  name_eq := rfl
  initializer_eq := rfl
  span_eq := rfl
  isMutable_eq := rfl
  deduced := by
    intro hdeduced
    have hvalues := h.hasValues
    rw [hdeduced] at hvalues
    cases hvalues
  written := fun _ => rfl
  typed := by
    rw [h.initializer_eq]
    exact h.typed
  hasValues := h.hasValues
  declared := by
    rw [h.span_eq]
    exact h.declared

/-- Statements stay as many as they were. -/
theorem BodyElaborates.ne_nil {id : Nat} {t t' : ScopeTree} {ss ss' : List Stmt}
    (h : BodyElaborates signatures id t ss ss' t') (hne : ss ≠ []) : ss' ≠ [] := by
  cases h with
  | nil => exact absurd rfl hne
  | cons => exact List.cons_ne_nil _ _

mutual

theorem Stmt.Elaborates.again {id : Nat} {t t' : ScopeTree} {s s' : Stmt} :
    s.Elaborates signatures id t s' t' → s'.Elaborates signatures id t s' t'
  | .call span typed => .call span typed
  | .define hdecl => .define hdecl.again
  | .assign passes => .assign passes
  | .ret passes => .ret passes
  | .ifThenElse span passes hthen helse => .ifThenElse span passes hthen.again helse.again
  | .whileDo span passes hbody => .whileDo span passes hbody.again

theorem Block.Elaborates.again {id : Nat} {t t' : ScopeTree} {b b' : Block Stmt} :
    b.Elaborates signatures id t b' t' → b'.Elaborates signatures id t b' t'
  | .empty id t number span => .empty id t number span
  | .filled _ span nonempty hbody => .filled _ span (hbody.ne_nil nonempty) hbody.again

theorem BodyElaborates.again {id : Nat} {t t' : ScopeTree} {ss ss' : List Stmt} :
    BodyElaborates signatures id t ss ss' t' → BodyElaborates signatures id t ss' ss' t'
  | .nil id t => .nil id t
  | .cons hhead htail => .cons hhead.again htail.again

end

theorem FunDecl.Elaborates.again {t t' : ScopeTree} {f f' : FunDecl}
    (h : f.Elaborates signatures t f' t') : f'.Elaborates signatures t f' t' where
  name_eq := rfl
  parameters_eq := rfl
  result_eq := rfl
  span_eq := rfl
  bodySpan_eq := rfl
  scope_eq := h.scope_eq
  haveValues := by
    rw [h.parameters_eq]
    exact h.haveValues
  body := by
    obtain ⟨t₁, hdeclared, hbody⟩ := h.body
    rw [h.parameters_eq, h.result_eq]
    exact ⟨t₁, hdeclared, hbody.again⟩

/-- Items that stay as they are one by one, stay so one after the other. -/
theorem InOrder.again {α : Type} {R : ScopeTree → α → α → ScopeTree → Prop} {t t' : ScopeTree}
    {items items' : List α} (h : InOrder R t items items' t')
    (hagain : ∀ {t item item' t'}, R t item item' t' → R t item' item' t') :
    InOrder R t items' items' t' := by
  induction h with
  | nil t => exact .nil t
  | cons head_related _ ih => exact .cons (hagain head_related) ih

end Again

theorem FunDecl.Elaborates.signature_eq {signatures : Signatures} {t t' : ScopeTree}
    {f f' : FunDecl} (h : f.Elaborates signatures t f' t') : f'.signature = f.signature := by
  unfold FunDecl.signature
  rw [h.parameters_eq, h.result_eq]

/-- Names are collected from what the bodies have no part in. -/
theorem InOrder.collectSignatures_eq {signatures : Signatures} {t t' : ScopeTree}
    {fs fs' : List FunDecl} (h : InOrder (FunDecl.Elaborates signatures) t fs fs' t') :
    ∀ s, collectSignatures fs' s = collectSignatures fs s := by
  induction h with
  | nil t =>
    intro s
    rfl
  | cons head_related _ ih =>
    intro s
    simp only [collectSignatures, head_related.name_eq, head_related.span_eq,
      head_related.signature_eq, ih]

/-- **Checking twice is checking once.**  What a program that passes is made into passes again, and
is made into itself, with the same scopes. -/
theorem checking_again_changes_nothing {p : Program} {c : Checked} (h : checkProgram p = .ok c) :
    checkProgram c.program = .ok c := by
  obtain ⟨signatures, hnames, t, hglobals, hfunctions⟩ := checkProgram_eq_ok_iff.mp h
  refine checkProgram_eq_ok_iff.mpr ⟨signatures, ?_, t, ?_, ?_⟩
  · rw [hfunctions.collectSignatures_eq, hnames]
  · exact hglobals.again VarDecl.Elaborates.again
  · exact hfunctions.again FunDecl.Elaborates.again

/-- Types left open in a row: the second variable is deduced from the first, inside a block. -/
def deducedInARow : Program where
  globals := [⟨"limit", ⟨.deduced, true⟩, some (.number (.int32 3) "3" .unlocated), .unlocated⟩]
  functions :=
    [⟨"main", [⟨"n", ⟨.int32, false⟩, .unlocated⟩], .bool,
      .unresolved
        [.whileDo (.binary .lt (.name "n" .unlocated) (.name "limit" .unlocated) .unlocated)
          (.unresolved
            [.define ⟨"n", ⟨.deduced, true⟩, some (.name "limit" .unlocated), .unlocated⟩,
            .assign "limit" (.name "n" .unlocated) .unlocated]
            .unlocated)
          .unlocated,
        .ret (some (.bool true .unlocated)) .unlocated]
        .unlocated, .unlocated⟩]

/-- The first time types and numbers are filled in, the second time nothing is. -/
theorem deducedInARow_again : ∃ c, checkProgram deducedInARow = .ok c ∧
    c.program.globals.map VarDecl.type = [⟨.int32, true⟩] ∧ c.scopes.size = 3 ∧
      checkProgram c.program = .ok c :=
  ⟨_, rfl, rfl, rfl, checking_again_changes_nothing (p := deducedInARow) rfl⟩

end TypedImp
