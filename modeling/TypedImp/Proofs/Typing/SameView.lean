import TypedImp.Proofs.Relabel.Trees
import TypedImp.Proofs.ScopeResolution

/-!
# Checking depends on what can be seen

One tree of scopes is shared by all functions of a program, and it keeps what every function added.
What a function finds in it is decided by two things that can be seen from a scope: the declarations
on the way to the root, and the result that is asked for.  Two trees that look alike from a scope of
each are told apart by nothing that checking does, although the scopes may have different numbers
and the trees may hold different scopes elsewhere.

## What can differ

New scopes are numbered by the size of the tree, so from trees that look alike blocks receive
different numbers.  Everything else is the same: the same types are deduced, the same error is found
first.  After a nested block has been left, both trees have only grown by whole scopes and look from
the outside as they did before.

* `typeOf_congr`: the type of an expression depends on the meaning of names only.
* `ScopeTree.SameView`: two trees that look alike, with a lemma for each way to build trees.
* `ChecksAlike`: two checks that do the same on such trees.
* `checkStmt_sameView`, `checkBody_sameView`, `checkFunction_sameView`: statements and functions.
-/

namespace TypedImp

/-! ## Expressions -/

section Expressions

variable {Γ Γ' : Context}

mutual

/-- The type of an expression depends on the meaning of names only. -/
theorem typeOf_congr (h : ∀ name, Γ.resolve? name = Γ'.resolve? name) :
    ∀ e : Expr, typeOf Γ e = typeOf Γ' e
  | .number .. | .string .. | .bool .. => by simp only [typeOf]
  | .name name span => by simp only [typeOf, h name]
  | .unary op operand span => by simp only [typeOf, typeOf_congr h operand]
  | .binary op left right span => by
    simp only [typeOf, typeOf_congr h left, typeOf_congr h right]
  | .call callee arguments span => by
    simp only [typeOf, h, typeOf_congr h callee, checkEach_congr h arguments,
      checkArguments_congr h arguments]

theorem checkArguments_congr (h : ∀ name, Γ.resolve? name = Γ'.resolve? name) :
    ∀ (es : List Expr) (ts : List Ty), checkArguments Γ es ts = checkArguments Γ' es ts
  | [], _ => by simp only [checkArguments]
  | _ :: _, [] => by simp only [checkArguments]
  | e :: es, t :: ts => by
    simp only [checkArguments, typeOf_congr h e, checkArguments_congr h es ts]

theorem checkEach_congr (h : ∀ name, Γ.resolve? name = Γ'.resolve? name) :
    ∀ es : List Expr, checkEach Γ es = checkEach Γ' es
  | [] => by simp only [checkEach]
  | e :: es => by simp only [checkEach, typeOf_congr h e, checkEach_congr h es]

end

end Expressions

/-! ## Trees that look alike -/

namespace ScopeTree

/-- From a scope of each, two trees look alike: the same declarations can be seen, and the same
result is asked for. -/
structure SameView (t : ScopeTree) (id : Nat) (t' : ScopeTree) (id' : Nat) : Prop where
  wellFormed : t.WellFormed
  wellFormed' : t'.WellFormed
  exists_scope : ∃ scope, t.get? id = some scope
  exists_scope' : ∃ scope, t'.get? id' = some scope
  visible_eq : t.visible id = t'.visible id'
  result?_eq : t.result? id = t'.result? id'

namespace SameView

variable {t t₁ t' t₁' : ScopeTree} {id id' : Nat}

theorem refl (wf : t.WellFormed) {scope : Scope} (hs : t.get? id = some scope) :
    SameView t id t id :=
  ⟨wf, wf, ⟨scope, hs⟩, ⟨scope, hs⟩, rfl, rfl⟩

theorem symm (h : SameView t id t' id') : SameView t' id' t id :=
  ⟨h.wellFormed', h.wellFormed, h.exists_scope', h.exists_scope, h.visible_eq.symm,
    h.result?_eq.symm⟩

theorem trans {t'' : ScopeTree} {id'' : Nat} (h : SameView t id t' id')
    (h' : SameView t' id' t'' id'') : SameView t id t'' id'' :=
  ⟨h.wellFormed, h'.wellFormed', h.exists_scope, h'.exists_scope',
    h.visible_eq.trans h'.visible_eq, h.result?_eq.trans h'.result?_eq⟩

/-- A tree that grew by whole scopes looks from its old scopes as it did before. -/
theorem of_extends (wf : t.WellFormed) (hext : Extends t t₁) {scope : Scope}
    (hs : t.get? id = some scope) : SameView t id t₁ id := by
  have hid := le_size_of_get? hs
  exact ⟨wf, hext.wellFormed, ⟨scope, hs⟩, ⟨scope, (hext.get?_eq id hid).trans hs⟩,
    (hext.visible_eq wf hid).symm, (hext.result?_eq wf hid).symm⟩

/-- Trees that grew by whole scopes still look alike from their old scopes. -/
theorem extend (h : SameView t id t' id') (hext : Extends t t₁) (hext' : Extends t' t₁') :
    SameView t₁ id t₁' id' := by
  obtain ⟨scope, hs⟩ := h.exists_scope
  obtain ⟨scope', hs'⟩ := h.exists_scope'
  exact ((of_extends h.wellFormed hext hs).symm.trans h).trans
    (of_extends h.wellFormed' hext' hs')

/-- Two new scopes look alike from the inside if the scopes around them do. -/
theorem add (h : SameView t id t' id') (result : Option Ty) :
    SameView (t.add id result) (t.size + 1) (t'.add id' result) (t'.size + 1) := by
  obtain ⟨scope, hs⟩ := h.exists_scope
  obtain ⟨scope', hs'⟩ := h.exists_scope'
  have hid := le_size_of_get? hs
  have hid' := le_size_of_get? hs'
  refine ⟨h.wellFormed.add hid result, h.wellFormed'.add hid' result,
    ⟨_, get?_add_new t id result⟩, ⟨_, get?_add_new t' id' result⟩, ?_, ?_⟩
  · rw [visible_add h.wellFormed hid, visible_add h.wellFormed' hid', h.visible_eq]
  · rw [result?_add h.wellFormed hid, result?_add h.wellFormed' hid', h.result?_eq]

/-- The two scopes declare the same themselves. -/
theorem bindings_eq (h : SameView t id t' id') {scope scope' : Scope}
    (hs : t.get? id = some scope) (hs' : t'.get? id' = some scope') :
    scope.bindings = scope'.bindings := by
  have hvisible := h.visible_eq
  rw [visible_eq_cons h.wellFormed hs, visible_eq_cons h.wellFormed' hs'] at hvisible
  exact List.reverse_inj.mp (List.cons.inj hvisible).1

/-- A declaration is accepted in both scopes, which then still look alike, or refused in both. -/
theorem declare (h : SameView t id t' id') (b : Binding) (span : Span) :
    (∃ t₁ t₁', t.declare id b span = .ok t₁ ∧ t'.declare id' b span = .ok t₁' ∧
      SameView t₁ id t₁' id') ∨
    ∃ e, t.declare id b span = .error e ∧ t'.declare id' b span = .error e := by
  obtain ⟨scope, hs⟩ := h.exists_scope
  obtain ⟨scope', hs'⟩ := h.exists_scope'
  have hbinding : scope'.binding? b.name = scope.binding? b.name := by
    rw [Scope.binding?, Scope.binding?, h.bindings_eq hs hs']
  cases hb : scope.binding? b.name with
  | some c =>
    refine .inr ⟨⟨.variableRedeclared b.name, span⟩, ?_, ?_⟩
    · simp only [ScopeTree.declare, hs, hb]
    · simp only [ScopeTree.declare, hs', hbinding, hb]
  | none =>
    have hd : ∃ t₁, t.declare id b span = .ok t₁ := by
      simp only [ScopeTree.declare, hs, hb]
      exact ⟨_, rfl⟩
    have hd' : ∃ t₁', t'.declare id' b span = .ok t₁' :=
      ⟨_, by simp only [ScopeTree.declare, hs', hbinding, hb]; rfl⟩
    obtain ⟨t₁, hd⟩ := hd
    obtain ⟨t₁', hd'⟩ := hd'
    have hext := extendsAt_declare h.wellFormed hd
    have hext' := extendsAt_declare h.wellFormed' hd'
    obtain ⟨added, hs₁⟩ := hext.here scope hs
    obtain ⟨added', hs₁'⟩ := hext'.here scope' hs'
    obtain ⟨inner, outer, hbefore, hafter⟩ := visible_declare h.wellFormed hd
    obtain ⟨inner', outer', hbefore', hafter'⟩ := visible_declare h.wellFormed' hd'
    have hvisible := h.visible_eq
    rw [hbefore, hbefore'] at hvisible
    obtain ⟨rfl, rfl⟩ := List.cons.inj hvisible
    refine .inl ⟨t₁, t₁', hd, hd', hext.wellFormed, hext'.wellFormed, ⟨_, hs₁⟩, ⟨_, hs₁'⟩, ?_, ?_⟩
    · rw [hafter, hafter']
    · rw [hext.result?_eq h.wellFormed hs, hext'.result?_eq h.wellFormed' hs', h.result?_eq]

end SameView

end ScopeTree

open ScopeTree (SameView)

/-- Names have the same meaning where the same declarations and the same functions are seen. -/
theorem ScopeTree.SameView.resolve?_eq {signatures signatures' : Signatures}
    (hsignatures : ∀ name, signatures.get? name = signatures'.get? name) {t t' : ScopeTree}
    {id id' : Nat} (h : SameView t id t' id') (name : String) :
    (⟨signatures, t, id⟩ : Context).resolve? name =
      (⟨signatures', t', id'⟩ : Context).resolve? name := by
  rw [Context.resolve?_eq _ h.wellFormed, Context.resolve?_eq _ h.wellFormed']
  simp only [Context.visible, h.visible_eq, hsignatures]

/-! ## Checks that do the same -/

/-- Two ends of a check: related results in related trees, or the same error. -/
inductive SameEnd (V : ScopeTree → ScopeTree → Prop) {α : Type} (R : α → α → Prop) :
    EStateM.Result Error ScopeTree α → EStateM.Result Error ScopeTree α → Prop
  | ok {a a' : α} {t t' : ScopeTree} (related : R a a') (view : V t t') :
    SameEnd V R (.ok a t) (.ok a' t')
  | error (e : Error) (t t' : ScopeTree) : SameEnd V R (.error e t) (.error e t')

/-- From trees that look alike, two checks come to the same end, and leave trees that look alike. -/
def ChecksAlike (id id' : Nat) {α : Type} (R : α → α → Prop) (x y : Check α) : Prop :=
  ∀ t t', SameView t id t' id' → SameEnd (fun t t' => SameView t id t' id') R (x t) (y t')

namespace ChecksAlike

variable {id id' : Nat} {α β : Type} {R : α → α → Prop} {S : β → β → Prop}

theorem pure {a a' : α} (h : R a a') : ChecksAlike id id' R (Pure.pure a) (Pure.pure a') :=
  fun _ _ hview => .ok h hview

theorem throw (e : Error) : ChecksAlike id id' R (throw e) (throw e) :=
  fun t t' _ => .error e t t'

/-- One check after the other. -/
theorem bind {x y : Check α} {f g : α → Check β} (hx : ChecksAlike id id' R x y)
    (hf : ∀ a a', R a a' → ChecksAlike id id' S (f a) (g a')) :
    ChecksAlike id id' S (x >>= f) (y >>= g) := by
  intro t t' hview
  have hfirst := hx t t' hview
  change SameEnd _ S (EStateM.bind x f t) (EStateM.bind y g t')
  unfold EStateM.bind
  generalize x t = end₁ at hfirst ⊢
  generalize y t' = end₂ at hfirst ⊢
  cases hfirst with
  | ok related view => exact hf _ _ related _ _ view
  | error e t t' => exact .error e t t'

/-- A check whose result is the same, and another one after it. -/
theorem andThen {x y : Check α} {f g : α → Check β} (hx : ChecksAlike id id' Eq x y)
    (hf : ∀ a, ChecksAlike id id' S (f a) (g a)) :
    ChecksAlike id id' S (x >>= f) (y >>= g) := by
  refine hx.bind fun a a' ha => ?_
  subst ha
  exact hf a

theorem get {f g : ScopeTree → Check β}
    (h : ∀ t t', SameView t id t' id' → ChecksAlike id id' S (f t) (g t')) :
    ChecksAlike id id' S (MonadState.get >>= f) (MonadState.get >>= g) :=
  fun t t' hview => h t t' hview t t' hview

theorem ofExcept (r : Except Error α) :
    ChecksAlike id id' Eq (Check.ofExcept r) (Check.ofExcept r) := by
  cases r with
  | ok a => exact pure rfl
  | error e => exact throw e

theorem declare (b : Binding) (span : Span) :
    ChecksAlike id id' Eq (Check.declare id b span) (Check.declare id' b span) := by
  intro t t' hview
  change SameEnd _ Eq
    ((Check.ofExcept (t.declare id b span) >>= fun s => set s : Check Unit) t)
    ((Check.ofExcept (t'.declare id' b span) >>= fun s => set s : Check Unit) t')
  rcases hview.declare b span with ⟨t₁, t₁', hd, hd', hview₁⟩ | ⟨e, hd, hd'⟩
  · rw [hd, hd']
    exact .ok rfl hview₁
  · rw [hd, hd']
    exact .error e t t'

/-- Checks in new scopes.  What is left behind looks from the outside as it did before, provided
that the checks add nothing to the old scopes. -/
theorem inScope {result : Option Ty} {inner inner' : Nat → Check α}
    (h : ∀ new new', ChecksAlike new new' R (inner new) (inner' new'))
    (hext : ∀ {t a t₁}, t.WellFormed → (∃ scope, t.get? id = some scope) →
      (Check.addScope id result >>= inner) t = .ok a t₁ → ScopeTree.Extends t t₁)
    (hext' : ∀ {t a t₁}, t.WellFormed → (∃ scope, t.get? id' = some scope) →
      (Check.addScope id' result >>= inner') t = .ok a t₁ → ScopeTree.Extends t t₁) :
    ChecksAlike id id' R (Check.addScope id result >>= inner)
      (Check.addScope id' result >>= inner') := by
  intro t t' hview
  have hstart : (Check.addScope id result >>= inner) t =
      inner (t.size + 1) (t.add id result) := by
    rw [← ScopeTree.size_add t id result]
    rfl
  have hstart' : (Check.addScope id' result >>= inner') t' =
      inner' (t'.size + 1) (t'.add id' result) := by
    rw [← ScopeTree.size_add t' id' result]
    rfl
  have hinner := h _ _ _ _ (hview.add result)
  have hleft := @hext t
  have hright := @hext' t'
  rw [hstart] at hleft ⊢
  rw [hstart'] at hright ⊢
  generalize inner (t.size + 1) (t.add id result) = end₁ at hinner hleft ⊢
  generalize inner' (t'.size + 1) (t'.add id' result) = end₂ at hinner hright ⊢
  cases hinner with
  | error e t₁ t₁' => exact .error e t₁ t₁'
  | ok related view =>
    exact .ok related (hview.extend (hleft hview.wellFormed hview.exists_scope rfl)
      (hright hview.wellFormed' hview.exists_scope' rfl))

end ChecksAlike

/-! ## Statements without blocks -/

section Statements

variable {signatures signatures' : Signatures}
  (hsignatures : ∀ name, signatures.get? name = signatures'.get? name) {id id' : Nat}

include hsignatures

theorem typeIn_sameView (e : Expr) :
    ChecksAlike id id' Eq (Check.typeIn signatures id e) (Check.typeIn signatures' id' e) := by
  refine .get fun t t' hview => ?_
  rw [typeOf_congr (hview.resolve?_eq hsignatures) e]
  exact .ofExcept _

theorem checkVarDecl_sameView (decl : VarDecl) :
    ChecksAlike id id' Eq (checkVarDecl signatures id decl)
      (checkVarDecl signatures' id' decl) := by
  have hinitializer : ChecksAlike id id' Eq (checkInitializer signatures id decl.initializer)
      (checkInitializer signatures' id' decl.initializer) := by
    cases decl.initializer with
    | none => exact .pure rfl
    | some e => exact (typeIn_sameView hsignatures e).andThen fun _ => .pure rfl
  refine hinitializer.andThen fun initializer => ?_
  refine (ChecksAlike.ofExcept _).andThen fun t => (ChecksAlike.ofExcept _).andThen fun _ => ?_
  exact (ChecksAlike.declare _ decl.span).andThen fun _ => .pure rfl

theorem checkAgainst_sameView (required : Ty) (e : Expr) :
    ChecksAlike id id' Eq (checkAgainst signatures id required e)
      (checkAgainst signatures' id' required e) := by
  refine (typeIn_sameView hsignatures e).andThen fun t => ?_
  split
  · exact .throw _
  · exact .pure rfl

theorem checkAssignment_sameView (name : String) (value : Expr) (span : Span) :
    ChecksAlike id id' Eq (checkAssignment signatures id name value span)
      (checkAssignment signatures' id' name value span) := by
  refine .get fun t t' hview => ?_
  rw [hview.resolve?_eq hsignatures]
  cases (⟨signatures', t', id'⟩ : Context).resolve? name with
  | none => exact .throw _
  | some referent =>
    cases referent with
    | function signature => exact .throw _
    | builtin => exact .throw _
    | value type =>
      dsimp only
      split
      · exact checkAgainst_sameView hsignatures type.ty value
      · exact .throw _

theorem checkReturn_sameView (value : Option Expr) (span : Span) :
    ChecksAlike id id' Eq (checkReturn signatures id value span)
      (checkReturn signatures' id' value span) := by
  refine .get fun t t' hview => ?_
  rw [hview.result?_eq]
  cases t'.result? id' with
  | none => exact .throw _
  | some required =>
    cases value with
    | some e => exact checkAgainst_sameView hsignatures required e
    | none =>
      dsimp only
      split
      · exact .throw _
      · exact .pure rfl

end Statements

theorem checkParameters_sameView {id id' : Nat} (ps : List Parameter) :
    ChecksAlike id id' Eq (checkParameters id ps) (checkParameters id' ps) := by
  induction ps with
  | nil => exact .pure rfl
  | cons p ps ih =>
    exact (ChecksAlike.ofExcept _).andThen fun _ =>
      (ChecksAlike.declare _ p.span).andThen fun _ => ih

/-! ## Statements and blocks

The induction is on the syntax.  The numbers of the scopes of a block differ, and so do those of the
blocks inside it; up to these the results are the same. -/

/-- Statements that are the same up to the numbers of their scopes. -/
def Stmt.SameUpToScopes (s s' : Stmt) : Prop := s.relabel .unnumbered = s'.relabel .unnumbered

/-- Blocks that are the same up to the numbers of their scopes. -/
def Block.SameUpToScopes (b b' : Block Stmt) : Prop :=
  b.relabel .unnumbered = b'.relabel .unnumbered

/-- Lists of statements that are the same up to the numbers of their scopes. -/
def BodySameUpToScopes (ss ss' : List Stmt) : Prop :=
  relabelBody .unnumbered ss = relabelBody .unnumbered ss'

/-- Functions that are the same up to the numbers of their scopes. -/
def FunDecl.SameUpToScopes (f f' : FunDecl) : Prop :=
  f.relabel .unnumbered = f'.relabel .unnumbered

section Blocks

variable {signatures signatures' : Signatures}

mutual

theorem checkStmt_sameView
    (hsignatures : ∀ name, signatures.get? name = signatures'.get? name) :
    ∀ (s : Stmt) (id id' : Nat), ChecksAlike id id' Stmt.SameUpToScopes
      (checkStmt signatures id s) (checkStmt signatures' id' s)
  | .call callee arguments callSpan span, id, id' => by
    simp only [checkStmt]
    exact (typeIn_sameView hsignatures _).andThen fun _ => .pure rfl
  | .define decl, id, id' => by
    simp only [checkStmt]
    exact (checkVarDecl_sameView hsignatures decl).andThen fun _ => .pure rfl
  | .assign name value span, id, id' => by
    simp only [checkStmt]
    exact (checkAssignment_sameView hsignatures name value span).andThen fun _ => .pure rfl
  | .ret value span, id, id' => by
    simp only [checkStmt]
    exact (checkReturn_sameView hsignatures value span).andThen fun _ => .pure rfl
  | .ifThenElse condition thenBlock elseBlock span, id, id' => by
    simp only [checkStmt]
    refine (checkAgainst_sameView hsignatures .bool condition).andThen fun _ => ?_
    refine (checkBlock_sameView hsignatures thenBlock id id').bind fun _ _ hthen => ?_
    refine (checkBlock_sameView hsignatures elseBlock id id').bind fun _ _ helse => .pure ?_
    rw [Stmt.SameUpToScopes, Stmt.relabel, Stmt.relabel, hthen, helse]
  | .whileDo condition body span, id, id' => by
    simp only [checkStmt]
    refine (checkAgainst_sameView hsignatures .bool condition).andThen fun _ => ?_
    refine (checkBlock_sameView hsignatures body id id').bind fun _ _ hbody => .pure ?_
    rw [Stmt.SameUpToScopes, Stmt.relabel, Stmt.relabel, hbody]

theorem checkBlock_sameView
    (hsignatures : ∀ name, signatures.get? name = signatures'.get? name) :
    ∀ (b : Block Stmt) (id id' : Nat), ChecksAlike id id' Block.SameUpToScopes
      (checkBlock signatures id b) (checkBlock signatures' id' b)
  | ⟨[], number, span⟩, id, id' => by
    simp only [checkBlock]
    exact .pure rfl
  | ⟨s :: ss, number, span⟩, id, id' => by
    have hext : ∀ {signatures : Signatures} {id : Nat} {t t₁ : ScopeTree} {b' : Block Stmt},
        t.WellFormed → (∃ scope, t.get? id = some scope) →
        checkBlock signatures id ⟨s :: ss, number, span⟩ t = .ok b' t₁ →
        ScopeTree.Extends t t₁ := by
      rintro signatures id t t₁ b' wf ⟨scope, hs⟩ h
      exact (numbered_of_checkBlock _ wf hs h).1
    simp only [checkBlock] at hext ⊢
    refine .inScope (fun new new' => ?_) hext hext
    refine (checkStmt_sameView hsignatures s new new').bind fun first first' hfirst => ?_
    refine (checkBody_sameView hsignatures ss new new').bind fun rest rest' hrest => .pure ?_
    rw [Block.SameUpToScopes, Block.relabel, Block.relabel, relabelBody, relabelBody, hfirst,
      hrest]
    rfl

theorem checkBody_sameView
    (hsignatures : ∀ name, signatures.get? name = signatures'.get? name) :
    ∀ (ss : List Stmt) (id id' : Nat), ChecksAlike id id' BodySameUpToScopes
      (checkBody signatures id ss) (checkBody signatures' id' ss)
  | [], id, id' => by
    simp only [checkBody]
    exact .pure rfl
  | s :: ss, id, id' => by
    simp only [checkBody]
    refine (checkStmt_sameView hsignatures s id id').bind fun first first' hfirst => ?_
    refine (checkBody_sameView hsignatures ss id id').bind fun rest rest' hrest => .pure ?_
    rw [BodySameUpToScopes, relabelBody, relabelBody, hfirst, hrest]

end

theorem extends_of_checkFunction {f f' : FunDecl} {t t' : ScopeTree} (wf : t.WellFormed)
    (hs : ∃ scope, t.get? ScopeTree.globalId = some scope)
    (h : checkFunction signatures f t = .ok f' t') : ScopeTree.Extends t t' := by
  obtain ⟨scope, hs⟩ := hs
  exact (funResolved_of_checkFunction wf (ScopeTree.le_size_of_get? hs) h).1

/-- **A function is checked by what it sees of the globals.**  Whatever other scopes a tree holds,
the function passes with the same result up to the numbers of its scopes, or has the same error. -/
theorem checkFunction_sameView
    (hsignatures : ∀ name, signatures.get? name = signatures'.get? name) (f : FunDecl) :
    ChecksAlike ScopeTree.globalId ScopeTree.globalId FunDecl.SameUpToScopes
      (checkFunction signatures f) (checkFunction signatures' f) := by
  refine .inScope (fun new new' => ?_) extends_of_checkFunction extends_of_checkFunction
  refine (checkParameters_sameView f.parameters).andThen fun _ => ?_
  refine (checkBody_sameView hsignatures f.body.body new new').bind fun body body' hbody => .pure ?_
  have hbody : relabelBody .unnumbered body = relabelBody .unnumbered body' := hbody
  simp only [FunDecl.SameUpToScopes, FunDecl.relabel, Block.relabel, hbody]
  rfl

end Blocks

end TypedImp
