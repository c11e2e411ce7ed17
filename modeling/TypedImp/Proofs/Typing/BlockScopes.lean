import TypedImp.Proofs.Typing.Checking

/-!
# The scopes of the blocks of a program

Checking hands out the numbers of scopes while it walks a program: one for the globals, one for the
body of each function and one for each nested block that is not empty.  Behind the walk the tree and
the blocks describe each other: a block knows the number of its scope, and the scope at that number
has the block around it as its parent and declares what the block defines directly.

## Why the blocks are listed with what is around them

A number is given to a block before the blocks inside it get theirs, and after those before it.  So
the numbers that a list of statements receives are consecutive, in the order in which its blocks
begin.  Listing the blocks in that order, each with the number of the scope around it, turns every
statement about the shape of the tree into one about a list, and the lists of two statements in a
row are appended.

* `blocksIn`: the blocks in a list of statements, at any depth, with the scope around each.
* `Numbered`: the scopes that such blocks received.
* `Grown`, `grown_of_checkStmt`, `grown_of_checkBody`: how the tree grows while statements are
  checked.
-/

namespace TypedImp

/-! ## Blocks and the variables they define -/

namespace Stmt

/-- The variable that a statement defines. -/
def definition? : Stmt → Option VarDecl
  | .define decl => some decl
  | .call .. | .assign .. | .ret .. | .ifThenElse .. | .whileDo .. => none

end Stmt

/-- The variables that statements define directly, in order. -/
def definitions (ss : List Stmt) : List VarDecl := ss.filterMap Stmt.definition?

mutual

/-- The blocks in a statement that stands in the scope `outer`, each with the scope around it. -/
def Stmt.blocksIn (outer : Nat) : Stmt → List (Nat × Block Stmt)
  | .ifThenElse _ thenBlock elseBlock _ => thenBlock.blocksIn outer ++ elseBlock.blocksIn outer
  | .whileDo _ body _ => body.blocksIn outer
  | .call .. | .define _ | .assign .. | .ret .. => []

/-- A block that stands in the scope `outer`, and then the blocks inside it. -/
def Block.blocksIn (outer : Nat) : Block Stmt → List (Nat × Block Stmt)
  | ⟨body, scope, span⟩ => (outer, ⟨body, scope, span⟩) :: TypedImp.blocksIn scope body

/-- The blocks in a list of statements that stands in the scope `outer`, in the order in which they
begin. -/
def blocksIn (outer : Nat) : List Stmt → List (Nat × Block Stmt)
  | [] => []
  | s :: ss => s.blocksIn outer ++ blocksIn outer ss

end

/-- The blocks among these that are not empty. -/
def filled (blocks : List (Nat × Block Stmt)) : List (Nat × Block Stmt) :=
  blocks.filter fun entry => !entry.2.body.isEmpty

/-- The numbers of the scopes of the blocks that are not empty. -/
def scopeNumbers (blocks : List (Nat × Block Stmt)) : List Nat :=
  (filled blocks).map fun entry => entry.2.scope

theorem definitions_cons (s : Stmt) (ss : List Stmt) :
    definitions (s :: ss) = definitions [s] ++ definitions ss := by
  unfold definitions
  rw [← List.filterMap_append]
  rfl

theorem blocksIn_cons (outer : Nat) (s : Stmt) (ss : List Stmt) :
    blocksIn outer (s :: ss) = blocksIn outer [s] ++ blocksIn outer ss := by
  simp only [blocksIn, List.append_nil]

theorem scopeNumbers_append (blocks blocks' : List (Nat × Block Stmt)) :
    scopeNumbers (blocks ++ blocks') = scopeNumbers blocks ++ scopeNumbers blocks' := by
  simp only [scopeNumbers, filled, List.filter_append, List.map_append]

theorem mem_scopeNumbers {blocks : List (Nat × Block Stmt)} {outer : Nat} {b : Block Stmt}
    (h : (outer, b) ∈ blocks) (hb : b.body ≠ []) : b.scope ∈ scopeNumbers blocks :=
  List.mem_map.mpr ⟨(outer, b), List.mem_filter.mpr ⟨h, by simpa using hb⟩, rfl⟩

/-- The scope around statements only matters for the blocks that stand directly among them. -/
theorem map_snd_blocksIn (outer outer' : Nat) (ss : List Stmt) :
    (blocksIn outer ss).map Prod.snd = (blocksIn outer' ss).map Prod.snd := by
  have hblock : ∀ b : Block Stmt,
      (b.blocksIn outer).map Prod.snd = (b.blocksIn outer').map Prod.snd := by
    rintro ⟨body, scope, span⟩
    simp only [Block.blocksIn, List.map_cons]
  have hstmt : ∀ s : Stmt, (s.blocksIn outer).map Prod.snd = (s.blocksIn outer').map Prod.snd := by
    intro s
    cases s <;> simp [Stmt.blocksIn, hblock _]
  induction ss with
  | nil => simp [blocksIn]
  | cons s ss ih => simp [blocksIn, hstmt s, ih]

/-! ## What the blocks receive -/

/-- What checking makes of a block: as many statements, which define the same names in the same
order.  A block without statements stays as it was. -/
structure Block.Resolves (b b' : Block Stmt) : Prop where
  length_eq : b'.body.length = b.body.length
  names_eq : (definitions b'.body).map VarDecl.name = (definitions b.body).map VarDecl.name
  scope_eq : b.body = [] → b'.scope = b.scope

/-- While the tree grows from `t` to `t'`, the blocks on the left become those on the right.  Those
that are not empty receive the new scopes, in order. -/
structure Numbered (t t' : ScopeTree) (blocks blocks' : List (Nat × Block Stmt)) : Prop where
  numbers_eq : scopeNumbers blocks' = List.range' (t.size + 1) (t'.size - t.size)
  /-- A scope has the one around the block as its parent, and declares what the block defines. -/
  placed : ∀ outer b, (outer, b) ∈ blocks' → b.body ≠ [] →
    t'.get? b.scope = some ⟨outer, (definitions b.body).map VarDecl.binding, none⟩
  resolved : List.Forall₂ Block.Resolves (blocks.map Prod.snd) (blocks'.map Prod.snd)

namespace Numbered

theorem nil (t : ScopeTree) : Numbered t t [] [] where
  numbers_eq := by simp [scopeNumbers, filled]
  placed := fun outer b h => absurd h List.not_mem_nil
  resolved := .nil

/-- Blocks that follow keep the numbering going, as long as they leave the scopes before alone. -/
theorem append {t t' t'' : ScopeTree} {bs bs' cs cs' : List (Nat × Block Stmt)}
    (h : Numbered t t' bs bs') (h' : Numbered t' t'' cs cs') (hle : t.size ≤ t'.size)
    (hle' : t'.size ≤ t''.size)
    (hkept : ∀ j, t.size < j → j ≤ t'.size → t''.get? j = t'.get? j) :
    Numbered t t'' (bs ++ cs) (bs' ++ cs') where
  numbers_eq := by
    rw [scopeNumbers_append, h.numbers_eq, h'.numbers_eq]
    have hsplit : t''.size - t.size = (t'.size - t.size) + (t''.size - t'.size) := by omega
    have hstart : t'.size + 1 = t.size + 1 + (t'.size - t.size) := by omega
    rw [hsplit, hstart, List.range'_append_1]
  placed := by
    intro outer b hmem hb
    rcases List.mem_append.mp hmem with hmem | hmem
    · have hnumber := mem_scopeNumbers hmem hb
      rw [h.numbers_eq, List.mem_range'_1] at hnumber
      rw [hkept b.scope (by omega) (by omega)]
      exact h.placed outer b hmem hb
    · exact h'.placed outer b hmem hb
  resolved := by
    rw [List.map_append, List.map_append]
    exact List.rel_append h.resolved h'.resolved

end Numbered

/-- How the tree grows while the statements `ss` are checked in the scope `id` and become `ss'`. -/
structure Grown (id : Nat) (t t' : ScopeTree) (ss ss' : List Stmt) : Prop where
  extendsAt : ScopeTree.ExtendsAt id t t'
  /-- The scope of the statements declares in addition what they define directly. -/
  declared : ∀ scope, t.get? id = some scope → t'.get? id =
    some { scope with bindings := scope.bindings ++ (definitions ss').map VarDecl.binding }
  length_eq : ss'.length = ss.length
  names_eq : (definitions ss').map VarDecl.name = (definitions ss).map VarDecl.name
  blocks : Numbered t t' (blocksIn id ss) (blocksIn id ss')

namespace Grown

variable {id : Nat} {t t' t'' : ScopeTree}

theorem nil (wf : t.WellFormed) : Grown id t t [] [] where
  extendsAt := (ScopeTree.Extends.refl wf).at id
  declared := fun scope hs => by simp [definitions, hs]
  length_eq := rfl
  names_eq := rfl
  blocks := by simpa only [blocksIn] using Numbered.nil t

theorem cons {s s' : Stmt} {ss ss' : List Stmt} {scope : Scope} (hs : t.get? id = some scope)
    (h : Grown id t t' [s] [s']) (h' : Grown id t' t'' ss ss') :
    Grown id t t'' (s :: ss) (s' :: ss') where
  extendsAt := h.extendsAt.trans h'.extendsAt
  declared := by
    intro scope' hs'
    rw [h'.declared _ (h.declared scope' hs'), definitions_cons s' ss', List.map_append,
      List.append_assoc]
  length_eq := by rw [List.length_cons, List.length_cons, h'.length_eq]
  names_eq := by
    rw [definitions_cons s, definitions_cons s', List.map_append, List.map_append, h.names_eq,
      h'.names_eq]
  blocks := by
    rw [blocksIn_cons id s, blocksIn_cons id s']
    have hid := ScopeTree.le_size_of_get? hs
    exact h.blocks.append h'.blocks h.extendsAt.size_le h'.extendsAt.size_le fun j hj hj' =>
      h'.extendsAt.get?_eq j hj' (by omega)

/-- A statement that leaves the tree alone, and holds neither a definition nor a block. -/
theorem of_plain {s : Stmt} (wf : t.WellFormed) (hdefinition : s.definition? = none)
    (hblocks : s.blocksIn id = []) : Grown id t t [s] [s] where
  extendsAt := (ScopeTree.Extends.refl wf).at id
  declared := fun scope hs => by simp [definitions, hdefinition, hs]
  length_eq := rfl
  names_eq := rfl
  blocks := by simpa only [blocksIn, hblocks, List.append_nil] using Numbered.nil t

/-- A statement that holds blocks but no definition: only whole scopes are added. -/
theorem of_blocks {s s' : Stmt} (hext : ScopeTree.Extends t t') (hdefinition : s.definition? = none)
    (hdefinition' : s'.definition? = none)
    (hblocks : Numbered t t' (s.blocksIn id) (s'.blocksIn id)) : Grown id t t' [s] [s'] where
  extendsAt := hext.at id
  declared := fun scope hs => by
    rw [hext.get?_eq id (ScopeTree.le_size_of_get? hs), hs]
    simp [definitions, hdefinition']
  length_eq := rfl
  names_eq := by simp [definitions, hdefinition, hdefinition']
  blocks := by simpa only [blocksIn, List.append_nil] using hblocks

end Grown

/-! ## Statements -/

section Statements

variable {signatures : Signatures} {id : Nat} {t t' : ScopeTree}

/-- Checking a variable changes nothing but its type. -/
theorem name_of_checkVarDecl {decl decl' : VarDecl}
    (h : checkVarDecl signatures id decl t = .ok decl' t') : decl'.name = decl.name := by
  obtain ⟨init, t₁, -, h₁⟩ := Check.bind_eq_ok h
  obtain ⟨ty, t₂, -, h₂⟩ := Check.bind_eq_ok h₁
  obtain ⟨u, t₃, -, h₃⟩ := Check.bind_eq_ok h₂
  obtain ⟨u', t₄, -, hpure⟩ := Check.bind_eq_ok h₃
  obtain ⟨rfl, -⟩ := Check.pure_eq_ok hpure
  rfl

/-- A definition adds one declaration to the scope it stands in. -/
theorem grown_of_checkVarDecl {decl decl' : VarDecl} (wf : t.WellFormed)
    (h : checkVarDecl signatures id decl t = .ok decl' t') :
    Grown id t t' [.define decl] [.define decl'] := by
  obtain ⟨-, hdeclare⟩ := varTyped_of_checkVarDecl wf h
  obtain ⟨scope, hs, -, hsize, hget⟩ := ScopeTree.declare_eq_ok hdeclare
  refine ⟨ScopeTree.extendsAt_declare wf hdeclare, fun scope' hs' => ?_, rfl, ?_, ?_, ?_, ?_⟩
  · obtain rfl : scope = scope' := Option.some.inj (hs.symm.trans hs')
    rw [hget, if_pos rfl]
    rfl
  · simp [definitions, Stmt.definition?, name_of_checkVarDecl h]
  · simp [scopeNumbers, filled, blocksIn, Stmt.blocksIn, hsize]
  · intro outer b hmem
    simp [blocksIn, Stmt.blocksIn] at hmem
  · simp [blocksIn, Stmt.blocksIn]

/-- Requiring a type adds nothing to the tree. -/
theorem tree_of_checkAgainst {required : Ty} {e : Expr} {u : Unit}
    (h : checkAgainst signatures id required e t = .ok u t') : t' = t := by
  obtain ⟨ty, t₁, htype, hrest⟩ := Check.bind_eq_ok h
  obtain ⟨-, rfl⟩ := Check.typeIn_eq_ok htype
  split at hrest
  · cases hrest
  · exact (Check.pure_eq_ok hrest).2

/-- Nor does an assignment. -/
theorem tree_of_checkAssignment {name : String} {value : Expr} {span : Span} {u : Unit}
    (h : checkAssignment signatures id name value span t = .ok u t') : t' = t := by
  obtain ⟨t₁, t₂, hget, hrest⟩ := Check.bind_eq_ok h
  cases hget
  cases hr : (⟨signatures, t, id⟩ : Context).resolve? name with
  | none => rw [hr] at hrest; cases hrest
  | some referent =>
    rw [hr] at hrest
    cases referent with
    | function signature => cases hrest
    | builtin => cases hrest
    | value type =>
      dsimp only at hrest
      split at hrest
      · exact tree_of_checkAgainst hrest
      · cases hrest

/-- Whether a result may be given back is asked of the tree, and nothing is added to it. -/
theorem tree_of_checkReturn {value : Option Expr} {span : Span} {u : Unit}
    (h : checkReturn signatures id value span t = .ok u t') : t' = t := by
  obtain ⟨t₁, t₂, hget, hrest⟩ := Check.bind_eq_ok h
  cases hget
  cases hresult : t.result? id with
  | none => rw [hresult] at hrest; cases hrest
  | some required =>
    rw [hresult] at hrest
    cases value with
    | some e => exact tree_of_checkAgainst hrest
    | none =>
      simp only at hrest
      split at hrest
      · cases hrest
      · exact (Check.pure_eq_ok hrest).2

end Statements

/-! ## Blocks

The induction is on the syntax.  A nested block is checked in a scope that is new, so around it the
tree has only grown by whole scopes, and the first of them is that of the block. -/

section Blocks

variable {signatures : Signatures}

/-- A block with statements receives the next scope, and the blocks inside it those behind. -/
theorem numbered_of_grown {id number : Nat} {t t' : ScopeTree} {s s' : Stmt} {ss ss' : List Stmt}
    {span : Span} (h : Grown (t.size + 1) (t.add id none) t' (s :: ss) (s' :: ss')) :
    Numbered t t' (Block.blocksIn id ⟨s :: ss, number, span⟩)
      (Block.blocksIn id ⟨s' :: ss', t.size + 1, span⟩) where
  numbers_eq := by
    have hle := h.extendsAt.size_le
    have hnumbers := h.blocks.numbers_eq
    rw [ScopeTree.size_add] at hle hnumbers
    have hcount : t'.size - t.size = (t'.size - (t.size + 1)) + 1 := by omega
    rw [hcount, List.range'_succ, ← hnumbers]
    simp [Block.blocksIn, scopeNumbers, filled]
  placed := by
    intro outer b hmem hb
    simp only [Block.blocksIn, List.mem_cons] at hmem
    rcases hmem with heq | hmem
    · cases heq
      simpa [Scope.fresh] using h.declared _ (ScopeTree.get?_add_new t id none)
    · exact h.blocks.placed outer b hmem hb
  resolved := by
    simp only [Block.blocksIn, List.map_cons]
    refine .cons ⟨h.length_eq, h.names_eq, fun hnil => by cases hnil⟩ ?_
    rw [map_snd_blocksIn number (t.size + 1)]
    exact h.blocks.resolved

mutual

theorem grown_of_checkStmt : ∀ (s : Stmt) {id : Nat} {t t' : ScopeTree} {s' : Stmt}
    {scope : Scope}, t.WellFormed → t.get? id = some scope →
    checkStmt signatures id s t = .ok s' t' → Grown id t t' [s] [s']
  | .call callee arguments callSpan span, id, t, t', s', scope, wf, hs, h => by
    simp only [checkStmt] at h
    obtain ⟨ty, t₁, htype, hpure⟩ := Check.bind_eq_ok h
    obtain ⟨-, rfl⟩ := Check.typeIn_eq_ok htype
    obtain ⟨rfl, rfl⟩ := Check.pure_eq_ok hpure
    exact .of_plain wf rfl (by simp only [Stmt.blocksIn])
  | .define decl, id, t, t', s', scope, wf, hs, h => by
    simp only [checkStmt] at h
    obtain ⟨decl', t₁, hdecl, hpure⟩ := Check.bind_eq_ok h
    obtain ⟨rfl, rfl⟩ := Check.pure_eq_ok hpure
    exact grown_of_checkVarDecl wf hdecl
  | .assign name value span, id, t, t', s', scope, wf, hs, h => by
    simp only [checkStmt] at h
    obtain ⟨u, t₁, hassign, hpure⟩ := Check.bind_eq_ok h
    obtain rfl := tree_of_checkAssignment hassign
    obtain ⟨rfl, rfl⟩ := Check.pure_eq_ok hpure
    exact .of_plain wf rfl (by simp only [Stmt.blocksIn])
  | .ret value span, id, t, t', s', scope, wf, hs, h => by
    simp only [checkStmt] at h
    obtain ⟨u, t₁, hreturn, hpure⟩ := Check.bind_eq_ok h
    obtain rfl := tree_of_checkReturn hreturn
    obtain ⟨rfl, rfl⟩ := Check.pure_eq_ok hpure
    exact .of_plain wf rfl (by simp only [Stmt.blocksIn])
  | .ifThenElse condition thenBlock elseBlock span, id, t, t', s', scope, wf, hs, h => by
    simp only [checkStmt] at h
    obtain ⟨u, t₁, hcondition, hrest⟩ := Check.bind_eq_ok h
    obtain ⟨-, rfl⟩ := hasType_of_checkAgainst wf hcondition
    obtain ⟨thenBlock', t₂, hthen, hrest⟩ := Check.bind_eq_ok hrest
    obtain ⟨elseBlock', t₃, helse, hpure⟩ := Check.bind_eq_ok hrest
    obtain ⟨rfl, rfl⟩ := Check.pure_eq_ok hpure
    obtain ⟨hext, hthen⟩ := numbered_of_checkBlock thenBlock wf hs hthen
    have hs₂ := (hext.get?_eq id (ScopeTree.le_size_of_get? hs)).trans hs
    obtain ⟨hext', helse⟩ := numbered_of_checkBlock elseBlock hext.wellFormed hs₂ helse
    refine .of_blocks (hext.trans hext') rfl rfl ?_
    simp only [Stmt.blocksIn]
    exact hthen.append helse hext.size_le hext'.size_le fun j _ hj => hext'.get?_eq j hj
  | .whileDo condition body span, id, t, t', s', scope, wf, hs, h => by
    simp only [checkStmt] at h
    obtain ⟨u, t₁, hcondition, hrest⟩ := Check.bind_eq_ok h
    obtain ⟨-, rfl⟩ := hasType_of_checkAgainst wf hcondition
    obtain ⟨body', t₂, hbody, hpure⟩ := Check.bind_eq_ok hrest
    obtain ⟨rfl, rfl⟩ := Check.pure_eq_ok hpure
    obtain ⟨hext, hbody⟩ := numbered_of_checkBlock body wf hs hbody
    refine .of_blocks hext rfl rfl ?_
    simpa only [Stmt.blocksIn] using hbody

theorem numbered_of_checkBlock : ∀ (b : Block Stmt) {id : Nat} {t t' : ScopeTree}
    {b' : Block Stmt} {scope : Scope}, t.WellFormed → t.get? id = some scope →
    checkBlock signatures id b t = .ok b' t' →
    ScopeTree.Extends t t' ∧ Numbered t t' (b.blocksIn id) (b'.blocksIn id)
  | ⟨[], number, span⟩, id, t, t', b', scope, wf, hs, h => by
    simp only [checkBlock] at h
    obtain ⟨rfl, rfl⟩ := Check.pure_eq_ok h
    refine ⟨ScopeTree.Extends.refl wf, ?_, fun outer b hmem hb => ?_, ?_⟩
    · simp [Block.blocksIn, blocksIn, scopeNumbers, filled]
    · simp only [Block.blocksIn, blocksIn, List.mem_singleton, Prod.mk.injEq] at hmem
      obtain ⟨-, rfl⟩ := hmem
      exact absurd rfl hb
    · simp only [Block.blocksIn, blocksIn, List.map_cons, List.map_nil]
      exact .cons ⟨rfl, rfl, fun _ => rfl⟩ .nil
  | ⟨s :: ss, number, span⟩, id, t, t', b', scope, wf, hs, h => by
    simp only [checkBlock] at h
    obtain ⟨new, t₁, hadd, hrest⟩ := Check.bind_eq_ok h
    obtain ⟨rfl, rfl⟩ := Check.addScope_eq_ok hadd
    obtain ⟨first, t₂, hfirst, hrest⟩ := Check.bind_eq_ok hrest
    obtain ⟨rest, t₃, hss, hpure⟩ := Check.bind_eq_ok hrest
    obtain ⟨rfl, rfl⟩ := Check.pure_eq_ok hpure
    have wf₁ := wf.add (ScopeTree.le_size_of_get? hs) none
    have hs₁ := ScopeTree.get?_add_new t id none
    have hfirst := grown_of_checkStmt s wf₁ hs₁ hfirst
    have hrest := grown_of_checkBody ss hfirst.extendsAt.wellFormed (hfirst.declared _ hs₁) hss
    have hbody := hfirst.cons hs₁ hrest
    exact ⟨hbody.extendsAt.extends_of_add, numbered_of_grown hbody⟩

theorem grown_of_checkBody : ∀ (ss : List Stmt) {id : Nat} {t t' : ScopeTree}
    {ss' : List Stmt} {scope : Scope}, t.WellFormed → t.get? id = some scope →
    checkBody signatures id ss t = .ok ss' t' → Grown id t t' ss ss'
  | [], id, t, t', ss', scope, wf, hs, h => by
    simp only [checkBody] at h
    obtain ⟨rfl, rfl⟩ := Check.pure_eq_ok h
    exact .nil wf
  | s :: ss, id, t, t', ss', scope, wf, hs, h => by
    simp only [checkBody] at h
    obtain ⟨first, t₁, hfirst, hrest⟩ := Check.bind_eq_ok h
    obtain ⟨rest, t₂, hss, hpure⟩ := Check.bind_eq_ok hrest
    obtain ⟨rfl, rfl⟩ := Check.pure_eq_ok hpure
    have hfirst := grown_of_checkStmt s wf hs hfirst
    exact hfirst.cons hs
      (grown_of_checkBody ss hfirst.extendsAt.wellFormed (hfirst.declared _ hs) hss)

end

end Blocks

end TypedImp
