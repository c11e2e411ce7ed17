import TypedImp.Proofs.Typing.BlockScopes

/-!
# The scopes of a checked program

A checked program carries a tree of scopes, and its blocks carry numbers.  Both were made by one
walk over the program, so neither says anything that the other does not.

* `FunResolved`, `funResolved_of_checkFunction`: the scopes of a function and of its nested blocks.
* `ScopesResolved`, `scopes_of_checked_program`: the tree of a checked program.
-/

namespace TypedImp

/-! ## Functions -/

namespace FunDecl

/-- The nested blocks of a function, each with the scope around it. -/
def nestedBlocks (f : FunDecl) : List (Nat × Block Stmt) := blocksIn f.body.scope f.body.body

/-- The numbers of the scopes of a function: its body always has one. -/
def scopeNumbers (f : FunDecl) : List Nat := f.body.scope :: TypedImp.scopeNumbers f.nestedBlocks

end FunDecl

/-- The function `f` was checked and became `f'`, with its scopes in the tree `t`. -/
structure FunResolved (t : ScopeTree) (f f' : FunDecl) : Prop where
  name_eq : f'.name = f.name
  parameters_eq : f'.parameters = f.parameters
  result_eq : f'.result = f.result
  /-- The body of the function has the scope of the globals around it.  It declares the parameters
  and then what the body defines directly. -/
  body : t.get? f'.body.scope = some ⟨ScopeTree.globalId, f.parameters.map Parameter.binding ++
    (definitions f'.body.body).map VarDecl.binding, some f.result⟩
  names_eq :
    (definitions f'.body.body).map VarDecl.name = (definitions f.body.body).map VarDecl.name
  /-- A nested block that is not empty has the scope of the block around it as its parent, declares
  what it defines directly, and asks for no result. -/
  nested : ∀ outer b, (outer, b) ∈ f'.nestedBlocks → b.body ≠ [] →
    t.get? b.scope = some ⟨outer, (definitions b.body).map VarDecl.binding, none⟩
  resolved : List.Forall₂ Block.Resolves (f.nestedBlocks.map Prod.snd)
    (f'.nestedBlocks.map Prod.snd)

/-- Later changes elsewhere in the tree do not matter. -/
theorem FunResolved.congr {t t' : ScopeTree} {f f' : FunDecl} (h : FunResolved t f f')
    (hkept : ∀ id ∈ f'.scopeNumbers, t'.get? id = t.get? id) : FunResolved t' f f' :=
  { h with
    body := (hkept _ List.mem_cons_self).trans h.body
    nested := fun outer b hmem hb => (hkept _ (List.mem_cons_of_mem _
      (mem_scopeNumbers hmem hb))).trans (h.nested outer b hmem hb) }

theorem declared_of_checkParameters {id : Nat} : ∀ (ps : List Parameter) {t t' : ScopeTree}
    {scope : Scope} {u : Unit}, t.WellFormed → t.get? id = some scope →
    checkParameters id ps t = .ok u t' →
    ScopeTree.ExtendsAt id t t' ∧ t'.size = t.size ∧ t'.get? id =
      some { scope with bindings := scope.bindings ++ ps.map Parameter.binding }
  | [], t, t', scope, u, wf, hs, h => by
    obtain ⟨-, rfl⟩ := Check.pure_eq_ok h
    exact ⟨(ScopeTree.Extends.refl wf).at id, rfl, by simp [hs]⟩
  | p :: ps, t, t', scope, u, wf, hs, h => by
    simp only [checkParameters] at h
    obtain ⟨u₁, t₁, hvalues, h₁⟩ := Check.bind_eq_ok h
    obtain ⟨u₂, t₂, hdeclare, hrest⟩ := Check.bind_eq_ok h₁
    obtain ⟨-, rfl⟩ := Check.ofExcept_eq_ok hvalues
    have hdeclared := Check.declare_eq_ok hdeclare
    obtain ⟨scope', hs', -, hsize, hget⟩ := ScopeTree.declare_eq_ok hdeclared
    obtain rfl : scope = scope' := Option.some.inj (hs.symm.trans hs')
    have hhere := hget id
    rw [if_pos rfl] at hhere
    obtain ⟨hext, hsize', hend⟩ :=
      declared_of_checkParameters ps (wf.declare hdeclared) hhere hrest
    refine ⟨(ScopeTree.extendsAt_declare wf hdeclared).trans hext, hsize'.trans hsize, ?_⟩
    rw [hend, List.map_cons, List.append_assoc]
    rfl

/-- A function receives the next scope for its body, and the nested blocks those behind. -/
theorem funResolved_of_checkFunction {signatures : Signatures} {f f' : FunDecl} {t t' : ScopeTree}
    (wf : t.WellFormed) (hsize : 1 ≤ t.size) (h : checkFunction signatures f t = .ok f' t') :
    ScopeTree.Extends t t' ∧ FunResolved t' f f' ∧
      f'.scopeNumbers = List.range' (t.size + 1) (t'.size - t.size) := by
  obtain ⟨id, t₁, hadd, h₁⟩ := Check.bind_eq_ok h
  obtain ⟨u, t₂, hparameters, h₂⟩ := Check.bind_eq_ok h₁
  obtain ⟨body, t₃, hbody, hpure⟩ := Check.bind_eq_ok h₂
  obtain ⟨rfl, rfl⟩ := Check.addScope_eq_ok hadd
  obtain ⟨rfl, rfl⟩ := Check.pure_eq_ok hpure
  have hs₁ := ScopeTree.get?_add_new t ScopeTree.globalId (some f.result)
  obtain ⟨hext, hsize₂, hs₂⟩ :=
    declared_of_checkParameters f.parameters (wf.add hsize (some f.result)) hs₁ hparameters
  have hgrown := grown_of_checkBody f.body.body hext.wellFormed hs₂ hbody
  have hall := hext.trans hgrown.extendsAt
  rw [ScopeTree.size_add] at hsize₂
  refine ⟨hall.extends_of_add, ⟨rfl, rfl, rfl, ?_, hgrown.names_eq, hgrown.blocks.placed, ?_⟩, ?_⟩
  · rw [hgrown.declared _ hs₂]
    simp [Scope.fresh]
  · unfold FunDecl.nestedBlocks
    rw [map_snd_blocksIn f.body.scope (t.size + 1)]
    exact hgrown.blocks.resolved
  · have hle := hgrown.extendsAt.size_le
    have hcount : t'.size - t.size = (t'.size - (t.size + 1)) + 1 := by omega
    have hnumbers := hgrown.blocks.numbers_eq
    rw [hsize₂] at hnumbers
    rw [hcount, List.range'_succ, ← hnumbers]
    rfl

theorem funResolved_of_collect {signatures : Signatures} : ∀ (fs : List FunDecl) {t : ScopeTree},
    t.WellFormed → 1 ≤ t.size → (collect (checkFunction signatures) fs t).errors = [] →
    let collected := collect (checkFunction signatures) fs t
    ScopeTree.Extends t collected.scopes ∧
      List.Forall₂ (FunResolved collected.scopes) fs collected.passed ∧
      collected.passed.flatMap FunDecl.scopeNumbers =
        List.range' (t.size + 1) (collected.scopes.size - t.size)
  | [], t, wf, _, _ => ⟨ScopeTree.Extends.refl wf, .nil, by simp [collect]⟩
  | f :: fs, t, wf, hsize, h => by
    obtain ⟨f', t', hcheck, hrest, hpassed, hscopes⟩ := collect_cons h
    obtain ⟨hext, hf, hnumbers⟩ := funResolved_of_checkFunction wf hsize hcheck
    obtain ⟨hext', hfs, hnumbers'⟩ := funResolved_of_collect fs hext.wellFormed
      (Nat.le_trans hsize hext.size_le) hrest
    simp only [hpassed, hscopes]
    have hle := hext.size_le
    have hle' := hext'.size_le
    refine ⟨hext.trans hext', .cons (hf.congr fun id hid => hext'.get?_eq id ?_) hfs, ?_⟩
    · rw [hnumbers, List.mem_range'_1] at hid
      omega
    · rw [List.flatMap_cons, hnumbers, hnumbers']
      have hstart : t'.size + 1 = t.size + 1 + (t'.size - t.size) := by omega
      rw [hstart, List.range'_append_1]
      congr 1
      omega

/-! ## Programs -/

/-- The globals are declared in order in the scope they are checked in, and make no scopes. -/
theorem globals_of_collect {signatures : Signatures} : ∀ (decls : List VarDecl) {t : ScopeTree}
    {scope : Scope}, t.WellFormed → t.get? ScopeTree.globalId = some scope →
    (collect (checkVarDecl signatures ScopeTree.globalId) decls t).errors = [] →
    let collected := collect (checkVarDecl signatures ScopeTree.globalId) decls t
    collected.scopes.WellFormed ∧ collected.scopes.size = t.size ∧
      collected.passed.map VarDecl.name = decls.map VarDecl.name ∧
      collected.scopes.get? ScopeTree.globalId = some { scope with
        bindings := scope.bindings ++ collected.passed.map VarDecl.binding }
  | [], t, scope, wf, hs, _ => ⟨wf, rfl, rfl, by simp [collect, hs]⟩
  | decl :: decls, t, scope, wf, hs, h => by
    obtain ⟨decl', t', hcheck, hrest, hpassed, hscopes⟩ := collect_cons h
    obtain ⟨-, hdeclared⟩ := varTyped_of_checkVarDecl wf hcheck
    obtain ⟨scope', hs', -, hsize, hget⟩ := ScopeTree.declare_eq_ok hdeclared
    obtain rfl : scope = scope' := Option.some.inj (hs.symm.trans hs')
    have hhere := hget ScopeTree.globalId
    rw [if_pos rfl] at hhere
    obtain ⟨hwf, hsize', hnames, hend⟩ :=
      globals_of_collect decls (wf.declare hdeclared) hhere hrest
    simp only [hpassed, hscopes]
    refine ⟨hwf, hsize'.trans hsize, ?_, ?_⟩
    · rw [List.map_cons, List.map_cons, hnames, name_of_checkVarDecl hcheck]
    · rw [hend, List.map_cons, List.append_assoc]
      rfl

mutual

/-- The scope around a block is the one that the statements stand in, or that of one of the blocks:
a block that has another one in it is not empty. -/
theorem outer_of_mem_stmt : ∀ (s : Stmt) {id outer : Nat} {b : Block Stmt},
    (outer, b) ∈ s.blocksIn id → outer = id ∨ outer ∈ scopeNumbers (s.blocksIn id)
  | .ifThenElse condition thenBlock elseBlock span, id, outer, b, h => by
    simp only [Stmt.blocksIn, scopeNumbers_append, List.mem_append] at h ⊢
    rcases h with h | h
    · exact (outer_of_mem_block thenBlock h).imp_right .inl
    · exact (outer_of_mem_block elseBlock h).imp_right .inr
  | .whileDo condition body span, id, outer, b, h => by
    simp only [Stmt.blocksIn] at h ⊢
    exact outer_of_mem_block body h
  | .call .., id, outer, b, h | .define _, id, outer, b, h | .assign .., id, outer, b, h
  | .ret .., id, outer, b, h => by simp [Stmt.blocksIn] at h

theorem outer_of_mem_block : ∀ (body : Block Stmt) {id outer : Nat} {b : Block Stmt},
    (outer, b) ∈ body.blocksIn id → outer = id ∨ outer ∈ scopeNumbers (body.blocksIn id)
  | ⟨[], number, span⟩, id, outer, b, h => by
    simp only [Block.blocksIn, blocksIn, List.mem_singleton, Prod.mk.injEq] at h
    exact .inl h.1
  | ⟨s :: ss, number, span⟩, id, outer, b, h => by
    simp only [Block.blocksIn, List.mem_cons, Prod.mk.injEq] at h
    rcases h with h | h
    · exact .inl h.1
    · right
      have hnumbers : scopeNumbers (Block.blocksIn id ⟨s :: ss, number, span⟩) =
          number :: scopeNumbers (blocksIn number (s :: ss)) := by
        simp [Block.blocksIn, scopeNumbers, filled]
      rw [hnumbers, List.mem_cons]
      rw [blocksIn_cons, List.mem_append] at h
      rw [blocksIn_cons, scopeNumbers_append, List.mem_append]
      rcases h with h | h
      · simp only [blocksIn, List.append_nil] at h ⊢
        exact (outer_of_mem_stmt s h).imp_right .inl
      · exact (outer_of_mem_body ss h).imp_right .inr

theorem outer_of_mem_body : ∀ (ss : List Stmt) {id outer : Nat} {b : Block Stmt},
    (outer, b) ∈ blocksIn id ss → outer = id ∨ outer ∈ scopeNumbers (blocksIn id ss)
  | [], id, outer, b, h => by simp [blocksIn] at h
  | s :: ss, id, outer, b, h => by
    simp only [blocksIn, scopeNumbers_append, List.mem_append] at h ⊢
    rcases h with h | h
    · exact (outer_of_mem_stmt s h).imp_right .inl
    · exact (outer_of_mem_body ss h).imp_right .inr

end

namespace Program

/-- The nested blocks of a program that are not empty. -/
def filledBlocks (p : Program) : List (Nat × Block Stmt) :=
  p.functions.flatMap fun f => filled f.nestedBlocks

/-- The numbers of the scopes of a program. -/
def scopeNumbers (p : Program) : List Nat :=
  ScopeTree.globalId :: p.functions.flatMap FunDecl.scopeNumbers

/-- A program as it is read: no nested block has a scope yet. -/
def Unresolved (p : Program) : Prop :=
  ∀ f ∈ p.functions, ∀ outer b, (outer, b) ∈ f.nestedBlocks → b.scope = 0

end Program

/-- The tree of the checked program `c`, and how it belongs to the program `p` that was checked. -/
structure ScopesResolved (p : Program) (c : Checked) : Prop where
  /-- The first scope is that of the globals, and declares them in order. -/
  globals : c.scopes.get? ScopeTree.globalId =
    some ⟨0, c.program.globals.map VarDecl.binding, none⟩
  global_names : c.program.globals.map VarDecl.name = p.globals.map VarDecl.name
  /-- Every other scope has a scope with a smaller number around it. -/
  parents : ∀ id scope, 2 ≤ id → c.scopes.get? id = some scope →
    scope.parent < id ∧ (c.scopes.get? scope.parent).isSome
  names_distinct : ∀ id scope, c.scopes.get? id = some scope →
    (scope.bindings.map Binding.name).Nodup
  /-- The functions with their nested blocks, one after the other. -/
  functions : List.Forall₂ (FunResolved c.scopes) p.functions c.program.functions
  /-- An empty nested block of a program as it is read keeps the number zero. -/
  empty_blocks : p.Unresolved → ∀ f ∈ c.program.functions, ∀ outer b,
    (outer, b) ∈ f.nestedBlocks → b.body = [] → b.scope = 0
  /-- No number is used twice, and there are no scopes but these. -/
  numbers_distinct : c.program.scopeNumbers.Nodup
  numbers_complete : ∀ id, id ∈ c.program.scopeNumbers ↔ (c.scopes.get? id).isSome
  size_eq : c.scopes.size = 1 + p.functions.length + p.filledBlocks.length

/-- Of blocks that correspond, as many are not empty. -/
theorem length_filled_eq {blocks blocks' : List (Nat × Block Stmt)}
    (h : List.Forall₂ Block.Resolves (blocks.map Prod.snd) (blocks'.map Prod.snd)) :
    (filled blocks').length = (filled blocks).length := by
  rw [List.forall₂_map_left_iff, List.forall₂_map_right_iff] at h
  induction h with
  | nil => rfl
  | @cons entry entry' rest rest' hentry _ ih =>
    have hempty : entry'.2.body.isEmpty = entry.2.body.isEmpty := by
      rw [Bool.eq_iff_iff, List.isEmpty_iff_length_eq_zero, List.isEmpty_iff_length_eq_zero,
        hentry.length_eq]
    unfold filled at ih ⊢
    rw [List.filter_cons, List.filter_cons, hempty]
    split
    · rw [List.length_cons, List.length_cons, ih]
    · exact ih

/-- Each function has one scope for its body and one for each nested block that is not empty. -/
theorem length_scopeNumbers {t : ScopeTree} {fs fs' : List FunDecl}
    (h : List.Forall₂ (FunResolved t) fs fs') :
    (fs'.flatMap FunDecl.scopeNumbers).length =
      fs.length + (fs.flatMap fun f => filled f.nestedBlocks).length := by
  induction h with
  | nil => rfl
  | @cons f f' fs fs' hf _ ih =>
    have hfilled := length_filled_eq hf.resolved
    rw [List.flatMap_cons, List.flatMap_cons, List.length_append, List.length_append, ih,
      FunDecl.scopeNumbers, List.length_cons, scopeNumbers, List.length_map, hfilled,
      List.length_cons]
    omega

/-- An empty nested block keeps the number it had. -/
theorem FunResolved.scope_of_empty {t : ScopeTree} {f f' : FunDecl} (h : FunResolved t f f')
    {outer : Nat} {b : Block Stmt} (hmem : (outer, b) ∈ f'.nestedBlocks) (hb : b.body = []) :
    ∃ outer' b', (outer', b') ∈ f.nestedBlocks ∧ b.scope = b'.scope := by
  obtain ⟨b', hb', hresolves⟩ :=
    exists_mem_of_forall₂ h.resolved (List.mem_map_of_mem (f := Prod.snd) hmem)
  obtain ⟨⟨outer', b''⟩, hmem', rfl⟩ := List.mem_map.mp hb'
  have hlength := hresolves.length_eq
  rw [hb, List.length_nil] at hlength
  exact ⟨outer', b'', hmem', hresolves.scope_eq (List.length_eq_zero_iff.mp hlength.symm)⟩

/-- The scope around a scope of a function is no sentinel. -/
theorem FunResolved.one_le_parent {t : ScopeTree} {f f' : FunDecl} (h : FunResolved t f f')
    (hnumbers : ∀ id ∈ f'.scopeNumbers, 1 ≤ id) {id : Nat} {scope : Scope}
    (hid : id ∈ f'.scopeNumbers) (hs : t.get? id = some scope) : 1 ≤ scope.parent := by
  rcases List.mem_cons.mp hid with rfl | hid
  · obtain rfl := Option.some.inj (h.body.symm.trans hs)
    exact Nat.le_refl 1
  · obtain ⟨⟨outer, b⟩, hmem, rfl⟩ := List.mem_map.mp hid
    obtain ⟨hmem, hfilled⟩ := List.mem_filter.mp hmem
    have hscope := h.nested outer b hmem (by simpa using hfilled)
    obtain rfl := Option.some.inj (hscope.symm.trans hs)
    rcases outer_of_mem_body f'.body.body hmem with rfl | houter
    · exact hnumbers _ List.mem_cons_self
    · exact hnumbers _ (List.mem_cons_of_mem _ houter)

/-- The shape of the tree follows from what each function says of its own scopes, once the numbers
are known to be consecutive. -/
theorem scopesResolved_of_numbers {p : Program} {c : Checked} (wf : c.scopes.WellFormed)
    (hglobals : c.scopes.get? ScopeTree.globalId =
      some ⟨0, c.program.globals.map VarDecl.binding, none⟩)
    (hnames : c.program.globals.map VarDecl.name = p.globals.map VarDecl.name)
    (hfunctions : List.Forall₂ (FunResolved c.scopes) p.functions c.program.functions)
    (hnumbers : c.program.scopeNumbers = List.range' 1 c.scopes.size) : ScopesResolved p c := by
  have hmem : ∀ id, id ∈ c.program.scopeNumbers ↔ 1 ≤ id ∧ id ≤ c.scopes.size := by
    intro id
    rw [hnumbers, List.mem_range'_1]
    omega
  refine ⟨hglobals, hnames, fun id scope hid hs => ?_, fun id scope hs => (wf id scope hs).2,
    hfunctions, fun hunresolved f' hf' outer b hb hempty => ?_, ?_, fun id => ?_, ?_⟩
  · have hlt := (wf id scope hs).1
    have hle := ScopeTree.le_size_of_get? hs
    refine ⟨hlt, (ScopeTree.isSome_get?_iff _ _).mpr ⟨?_, by omega⟩⟩
    -- the scope is not that of the globals, so it belongs to a function
    have hid' := (hmem id).mpr ⟨by omega, hle⟩
    rcases List.mem_cons.mp hid' with rfl | hid'
    · exact absurd hid (by decide)
    · obtain ⟨f', hf', hid'⟩ := List.mem_flatMap.mp hid'
      obtain ⟨f, -, hf⟩ := exists_mem_of_forall₂ hfunctions hf'
      refine hf.one_le_parent (fun j hj => ((hmem j).mp ?_).1) hid' hs
      exact List.mem_cons_of_mem _ (List.mem_flatMap.mpr ⟨f', hf', hj⟩)
  · obtain ⟨f, hf, hresolved⟩ := exists_mem_of_forall₂ hfunctions hf'
    obtain ⟨outer', b', hb', hscope⟩ := hresolved.scope_of_empty hb hempty
    rw [hscope]
    exact hunresolved f hf outer' b' hb'
  · rw [hnumbers]
    exact List.nodup_range'
  · rw [hmem, ScopeTree.isSome_get?_iff]
  · have hlength := congrArg List.length hnumbers
    rw [List.length_range', Program.scopeNumbers, List.length_cons,
      length_scopeNumbers hfunctions] at hlength
    unfold Program.filledBlocks
    omega

/-- **The scopes of a checked program are those of its blocks.**  The first scope is that of the
globals.  The body of each function and each nested block that is not empty has a scope of its own,
inside that of the block around it, which declares the variables of the block in order; and there
are no other scopes. -/
theorem scopes_of_checked_program {p : Program} {c : Checked} (checked : checkProgram p = .ok c) :
    ScopesResolved p c := by
  obtain ⟨signatures, -, hglobalErrors, hfunctionErrors, rfl⟩ := of_checkProgram_eq_ok checked
  have hinitial : ScopeTree.initial.get? ScopeTree.globalId = some (.fresh 0 none) := rfl
  obtain ⟨hwf, hsize, hnames, hglobals⟩ :=
    globals_of_collect p.globals ScopeTree.wellFormed_initial hinitial hglobalErrors
  have hone : ScopeTree.initial.size = 1 := rfl
  rw [hone] at hsize
  obtain ⟨hext, hfunctions, hnumbers⟩ :=
    funResolved_of_collect p.functions hwf (by omega) hfunctionErrors
  have hle := hext.size_le
  rw [hsize] at hle hnumbers
  have hkept := hext.get?_eq ScopeTree.globalId (by rw [hsize]; exact Nat.le_refl 1)
  refine scopesResolved_of_numbers hext.wellFormed (hkept.trans hglobals) hnames hfunctions ?_
  obtain ⟨count, hcount⟩ := Nat.exists_eq_add_of_le' hle
  rw [Program.scopeNumbers, hnumbers, hcount]
  exact List.range'_succ.symm

/-- A program with a global, an empty `else`, and a loop inside a choice. -/
def nestedBlocksProgram : Program where
  globals := [⟨"g", ⟨.deduced, false⟩, some (.bool true .unlocated), .unlocated⟩]
  functions :=
    [⟨"main", [⟨"n", ⟨.int32, false⟩, .unlocated⟩], .void,
      .unresolved
        [.define ⟨"x", ⟨.deduced, true⟩, some (.name "n" .unlocated), .unlocated⟩,
        .ifThenElse (.name "g" .unlocated)
          (.unresolved
            [.define ⟨"x", ⟨.deduced, false⟩, some (.name "g" .unlocated), .unlocated⟩,
            .whileDo (.name "x" .unlocated)
              (.unresolved [.define ⟨"y", ⟨.bool, false⟩, none, .unlocated⟩] .unlocated)
              .unlocated]
            .unlocated)
          (.unresolved [] .unlocated) .unlocated]
        .unlocated, .unlocated⟩]

/-- The loop has the fourth scope, inside that of the choice, and there are no more. -/
theorem nestedBlocksProgram_scopes : ∃ c, checkProgram nestedBlocksProgram = .ok c ∧
    ScopesResolved nestedBlocksProgram c ∧ c.scopes.size = 4 ∧
      c.scopes.get? 4 = some ⟨3, [⟨"y", ⟨.bool, false⟩⟩], none⟩ :=
  ⟨_, rfl, scopes_of_checked_program rfl, rfl, rfl⟩

end TypedImp
