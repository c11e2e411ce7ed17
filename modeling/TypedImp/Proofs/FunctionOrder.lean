import TypedImp.Proofs.Relabel.Execution
import TypedImp.Proofs.Typing.Elaboration
import TypedImp.Proofs.Typing.SameView

/-!
# The order of functions does not matter

Functions may call each other wherever they stand, so a program should mean the same with its
functions in another order.  Three things depend on the order at first sight.  Signatures are
collected one after the other; but an accepted program has no two functions of one name, and then
the table is the same for every order.  Scopes are allocated while functions are checked; but a
function sees the globals and itself, and nothing of the functions checked before it.  And a call
searches the list for the first function of a name; but there is only one.

* `find?_name_of_perm`: finding functions in another order.
* `collectSignatures_errors_eq_nil_iff`: when names are accepted.
* `Passes`, `elaborated`: what checking makes of a function, whatever stands before it.
* `function_order_does_not_matter`: **permuted functions**.
-/

namespace TypedImp

open ScopeTree (SameView)

/-! ## Names -/

/-- Where no two functions have one name, under a name the one function of that name is found. -/
theorem find?_name_eq_some_iff {fs : List FunDecl} (h : (fs.map FunDecl.name).Nodup) {name : String}
    {f : FunDecl} : (fs.find? fun f => f.name = name) = some f ↔ f ∈ fs ∧ f.name = name := by
  constructor
  · intro hfind
    exact ⟨List.mem_of_find?_eq_some hfind, by simpa using List.find?_some hfind⟩
  · rintro ⟨hmem, rfl⟩
    cases hfind : fs.find? fun g => g.name = f.name with
    | none =>
      have hne := List.find?_eq_none.mp hfind f hmem
      simp at hne
    | some g =>
      have hname : g.name = f.name := by simpa using List.find?_some hfind
      rw [List.inj_on_of_nodup_map h (List.mem_of_find?_eq_some hfind) hmem hname]

theorem find?_name_of_perm {fs fs' : List FunDecl} (hperm : fs.Perm fs')
    (h : (fs.map FunDecl.name).Nodup) (name : String) :
    (fs.find? fun f => f.name = name) = fs'.find? fun f => f.name = name := by
  have h' : (fs'.map FunDecl.name).Nodup := (hperm.map FunDecl.name).nodup_iff.mp h
  ext f
  rw [find?_name_eq_some_iff h, find?_name_eq_some_iff h', hperm.mem_iff]

/-- A name is free behind an insertion if it is another one and was free before. -/
theorem Signatures.get?_insert_eq_none_iff (s : Signatures) (name other : String)
    (signature : Signature) :
    (s.insert name signature).get? other = none ↔ other ≠ name ∧ s.get? other = none := by
  rw [get?_insert]
  by_cases h : other = name
  · simp [h]
  · simp [h]

/-- Names are accepted if they are distinct, new, and not that of the builtin. -/
theorem collectSignatures_errors_eq_nil_iff : ∀ (fs : List FunDecl) (s : Signatures),
    (collectSignatures fs s).1 = [] ↔ (fs.map FunDecl.name).Nodup ∧
      ∀ f ∈ fs, f.name ≠ Builtin.print ∧ s.get? f.name = none
  | [], s => by simp [collectSignatures]
  | f :: fs, s => by
    rw [collectSignatures]
    by_cases hused : f.name = Builtin.print ∨ (s.get? f.name).isSome
    · rw [if_pos hused]
      constructor
      · intro herrors
        cases herrors
      · rintro ⟨-, hfree⟩
        obtain ⟨hprint, hnew⟩ := hfree f List.mem_cons_self
        rcases hused with hused | hused
        · exact absurd hused hprint
        · rw [hnew] at hused
          cases hused
    · rw [if_neg hused, collectSignatures_errors_eq_nil_iff fs]
      obtain ⟨hprint, hnew⟩ := not_or.mp hused
      rw [Option.not_isSome_iff_eq_none] at hnew
      simp only [Signatures.get?_insert_eq_none_iff, List.map_cons, List.nodup_cons,
        List.forall_mem_cons, List.mem_map, not_exists, not_and]
      constructor
      · rintro ⟨hnodup, hfree⟩
        refine ⟨⟨fun g hg => (hfree g hg).2.1, hnodup⟩, ⟨hprint, hnew⟩, ?_⟩
        intro g hg
        exact ⟨(hfree g hg).1, (hfree g hg).2.2⟩
      · rintro ⟨⟨hfirst, hnodup⟩, -, hfree⟩
        refine ⟨hnodup, fun g hg => ?_⟩
        exact ⟨(hfree g hg).1, hfirst g hg, (hfree g hg).2⟩

/-- In another order the same names are accepted, and mean the same. -/
theorem collectSignatures_of_perm {fs fs' : List FunDecl} {signatures : Signatures}
    (hperm : fs.Perm fs') (h : collectSignatures fs [] = ([], signatures)) :
    ∃ signatures', collectSignatures fs' [] = ([], signatures') ∧
      ∀ name, signatures.get? name = signatures'.get? name := by
  obtain ⟨hnodup, hfree⟩ := (collectSignatures_errors_eq_nil_iff fs []).mp (congrArg Prod.fst h)
  have herrors : (collectSignatures fs' []).1 = [] :=
    (collectSignatures_errors_eq_nil_iff fs' []).mpr
      ⟨(hperm.map FunDecl.name).nodup_iff.mp hnodup, fun f hf => hfree f (hperm.mem_iff.mpr hf)⟩
  have h' : collectSignatures fs' [] = ([], (collectSignatures fs' []).2) := Prod.ext herrors rfl
  refine ⟨_, h', fun name => ?_⟩
  rw [(get?_of_collectSignatures fs h).2, (get?_of_collectSignatures fs' h').2,
    find?_name_of_perm hperm hnodup]

/-! ## Globals -/

section Checks

variable {signatures signatures' : Signatures}
  (hsignatures : ∀ name, signatures.get? name = signatures'.get? name)

include hsignatures

/-- Globals pass alike with tables that mean the same. -/
theorem collect_globals_sameView : ∀ (decls : List VarDecl) {t t' : ScopeTree},
    SameView t ScopeTree.globalId t' ScopeTree.globalId →
    (collect (checkVarDecl signatures ScopeTree.globalId) decls t).errors = [] →
    let collected := collect (checkVarDecl signatures ScopeTree.globalId) decls t
    let collected' := collect (checkVarDecl signatures' ScopeTree.globalId) decls t'
    collected'.errors = [] ∧ collected'.passed = collected.passed ∧
      SameView collected.scopes ScopeTree.globalId collected'.scopes ScopeTree.globalId
  | [], _, _, hview, _ => ⟨rfl, rfl, hview⟩
  | decl :: decls, t, t', hview, h => by
    obtain ⟨decl₁, t₁, hcheck, hrest, -, -⟩ := collect_cons h
    have hend := checkVarDecl_sameView hsignatures decl t t' hview
    rw [hcheck] at hend
    generalize hcheck' : checkVarDecl signatures' ScopeTree.globalId decl t' = end' at hend
    cases hend with
    | @ok _ decl₁' _ t₁' related view =>
      subst related
      obtain ⟨herrors', hpassed', hview'⟩ := collect_globals_sameView decls view hrest
      simp only [collect, hcheck, hcheck', herrors', hpassed', true_and]
      exact hview'

/-! ## Functions -/

omit hsignatures in
/-- A function passes in a tree. -/
def Passes (signatures : Signatures) (t : ScopeTree) (f : FunDecl) : Prop :=
  ∃ f' t', checkFunction signatures f t = .ok f' t'

omit hsignatures in
/-- What checking makes of a function in a tree, up to the numbers of its scopes. -/
def elaborated (signatures : Signatures) (t : ScopeTree) (f : FunDecl) : FunDecl :=
  match checkFunction signatures f t with
  | .ok f' _ => f'.relabel .unnumbered
  | .error _ _ => f

omit hsignatures in
theorem name_elaborated (signatures : Signatures) (t : ScopeTree) (f : FunDecl) :
    (elaborated signatures t f).name = f.name := by
  unfold elaborated
  cases h : checkFunction signatures f t with
  | error e t' => rfl
  | ok f' t' => exact (FunDecl.name_relabel _ f').trans (checkFunction_eq_ok_iff.mp h).name_eq

/-- In trees with the same globals a function passes alike. -/
theorem checkFunction_of_sameView {t t' t₁ : ScopeTree} {f f₁ : FunDecl}
    (hview : SameView t ScopeTree.globalId t' ScopeTree.globalId)
    (h : checkFunction signatures f t = .ok f₁ t₁) :
    ∃ f₁' t₁', checkFunction signatures' f t' = .ok f₁' t₁' ∧
      f₁'.relabel .unnumbered = f₁.relabel .unnumbered ∧ ScopeTree.Extends t' t₁' := by
  have hend := checkFunction_sameView hsignatures f t t' hview
  rw [h] at hend
  generalize hcheck' : checkFunction signatures' f t' = end' at hend
  cases hend with
  | ok related view =>
    exact ⟨_, _, rfl, related.symm,
      extends_of_checkFunction hview.wellFormed' hview.exists_scope' hcheck'⟩

/-- Functions that pass on their own, in a tree with the globals, pass one after the other, and
become what they become on their own. -/
theorem collect_functions_of_passes {t : ScopeTree} : ∀ (fs : List FunDecl) {t' : ScopeTree},
    SameView t ScopeTree.globalId t' ScopeTree.globalId → (∀ f ∈ fs, Passes signatures t f) →
    let collected := collect (checkFunction signatures') fs t'
    collected.errors = [] ∧ collected.passed.map (FunDecl.relabel .unnumbered) =
      fs.map (elaborated signatures t)
  | [], _, _, _ => ⟨rfl, rfl⟩
  | f :: fs, t', hview, hpasses => by
    obtain ⟨f₁, t₁, hcheck⟩ := hpasses f List.mem_cons_self
    obtain ⟨f₁', t₁', hcheck', hsame, hext⟩ := checkFunction_of_sameView hsignatures hview hcheck
    obtain ⟨scope, hs⟩ := hview.exists_scope'
    have hview₁ := hview.trans (SameView.of_extends hview.wellFormed' hext hs)
    obtain ⟨herrors, hpassed⟩ := collect_functions_of_passes fs hview₁ fun g hg =>
      hpasses g (List.mem_cons_of_mem f hg)
    have helaborated : elaborated signatures t f = f₁.relabel .unnumbered := by
      rw [elaborated, hcheck]
    simp only [collect, hcheck', herrors, List.map_cons, hpassed, hsame, helaborated, true_and]

/-- The other way round, functions that pass one after the other pass on their own. -/
theorem passes_of_collect_functions {t : ScopeTree} : ∀ (fs : List FunDecl) {t' : ScopeTree},
    SameView t ScopeTree.globalId t' ScopeTree.globalId →
    (collect (checkFunction signatures) fs t').errors = [] →
    ∀ f ∈ fs, Passes signatures' t f
  | [], _, _, _, f, hf => absurd hf List.not_mem_nil
  | f :: fs, t', hview, h, g, hg => by
    obtain ⟨f₁, t₁, hcheck, hrest, -, -⟩ := collect_cons h
    rcases List.mem_cons.mp hg with rfl | hg
    · obtain ⟨f₁', t₁', hcheck', -⟩ := checkFunction_of_sameView hsignatures hview.symm hcheck
      exact ⟨f₁', t₁', hcheck'⟩
    · have hext := extends_of_checkFunction hview.wellFormed' hview.exists_scope' hcheck
      obtain ⟨scope, hs⟩ := hview.exists_scope'
      exact passes_of_collect_functions fs
        (hview.trans (SameView.of_extends hview.wellFormed' hext hs)) hrest g hg

end Checks

/-! ## Runs -/

/-- Forgetting the numbers of scopes moves no error. -/
theorem Ending.relabel_unnumbered (ending : Ending) : ending.relabel .unnumbered = ending := by
  cases ending with
  | returned value => rfl
  | rejected e => rfl
  | faulted e => rfl
  | exhausted => rfl

/-- Programs with the same globals run alike if under every name they have functions that are the
same up to the numbers of scopes. -/
theorem Machine.run_eq_of_unnumbered {p p' : Program} (hglobals : p'.globals = p.globals)
    (hfunctions : ∀ name, (p'.function? name).map (FunDecl.relabel .unnumbered) =
      (p.function? name).map (FunDecl.relabel .unnumbered)) (fuel : Nat) (name : String)
    (arguments : List Value) (m : Machine) :
    m.run p' fuel name arguments = m.run p fuel name arguments := by
  -- both run like the second program without numbers
  have hglobals' : (p'.relabel .unnumbered).globals =
      p.globals.map (VarDecl.relabel .unnumbered) := by
    rw [Program.relabel, hglobals]
  have hfunctions' : ∀ name, (p'.relabel .unnumbered).function? name =
      (p.function? name).map (FunDecl.relabel .unnumbered) := by
    intro name
    rw [Program.function?_relabel, hfunctions]
  have hleft := Machine.run_relabel rfl rfl (Program.function?_relabel .unnumbered p') fuel name
    arguments m
  have hright := Machine.run_relabel rfl hglobals' hfunctions' fuel name arguments m
  rw [Ending.relabel_unnumbered] at hleft hright
  exact hleft.symm.trans hright

/-- **The order of functions does not matter.**  If a program passes, then so does every program
with the same globals and with its functions in another order.  Checking gives the same globals and
makes of each function the same in both programs, up to the numbers of scopes; and every run prints
the same lines and ends with the same value or the same error. -/
theorem function_order_does_not_matter {p p' : Program} {c : Checked}
    (checked : checkProgram p = .ok c) (globals_eq : p'.globals = p.globals)
    (perm : p.functions.Perm p'.functions) :
    ∃ c', checkProgram p' = .ok c' ∧ c'.program.globals = c.program.globals ∧
      (∃ elaborate : FunDecl → FunDecl,
        c.program.functions.map (FunDecl.relabel .unnumbered) = p.functions.map elaborate ∧
        c'.program.functions.map (FunDecl.relabel .unnumbered) = p'.functions.map elaborate) ∧
      ∀ (m : Machine) fuel name arguments,
        m.run c'.program fuel name arguments = m.run c.program fuel name arguments := by
  obtain ⟨globals, functions⟩ := p'
  obtain rfl : globals = p.globals := globals_eq
  obtain ⟨signatures, hnames, hglobalErrors, hfunctionErrors, rfl⟩ := of_checkProgram_eq_ok checked
  obtain ⟨signatures', hnames', hsignatures⟩ := collectSignatures_of_perm perm hnames
  have hnodup := ((collectSignatures_errors_eq_nil_iff p.functions []).mp
    (congrArg Prod.fst hnames)).1
  have hinitial : ScopeTree.initial.get? ScopeTree.globalId = some (.fresh 0 none) := rfl
  -- the globals leave trees that look alike
  obtain ⟨hglobalErrors', hglobals, hview⟩ := collect_globals_sameView hsignatures p.globals
    (SameView.refl ScopeTree.wellFormed_initial hinitial) hglobalErrors
  have hself := hview.trans hview.symm
  -- each function passes on its own, and so in every order
  have hpasses := passes_of_collect_functions (fun _ => rfl) p.functions hself hfunctionErrors
  obtain ⟨-, hpassed⟩ := collect_functions_of_passes (fun _ => rfl) p.functions hself hpasses
  obtain ⟨hfunctionErrors', hpassed'⟩ := collect_functions_of_passes hsignatures functions hview
    fun f hf => hpasses f (perm.mem_iff.mpr hf)
  refine ⟨_, checkProgram_eq_ok hnames' hglobalErrors' hfunctionErrors', hglobals,
    ⟨_, hpassed, hpassed'⟩, fun m fuel name arguments => ?_⟩
  refine Machine.run_eq_of_unnumbered hglobals (fun name => ?_) fuel name arguments m
  rw [Program.function?, Program.function?, ← find?_map_of_name_eq (FunDecl.name_relabel _),
    ← find?_map_of_name_eq (FunDecl.name_relabel _), hpassed, hpassed',
    find?_map_of_name_eq (name_elaborated _ _), find?_map_of_name_eq (name_elaborated _ _),
    find?_name_of_perm perm hnodup]

/-- A global, and a function that calls another one inside a block. -/
def callerFirst : Program where
  globals := [⟨"limit", ⟨.deduced, false⟩, some (.number (.int32 3) "3" .unlocated), .unlocated⟩]
  functions :=
    [⟨"main", [], .int32,
      .unresolved
        [.ifThenElse (.bool true .unlocated)
          (.unresolved
            [.define ⟨"x", ⟨.deduced, false⟩,
              some (.call (.name "twice" .unlocated) [.name "limit" .unlocated] .unlocated),
              .unlocated⟩,
            .ret (some (.name "x" .unlocated)) .unlocated] .unlocated)
          (.unresolved [] .unlocated) .unlocated,
        .ret (some (.name "limit" .unlocated)) .unlocated]
        .unlocated, .unlocated⟩,
    ⟨"twice", [⟨"n", ⟨.int32, false⟩, .unlocated⟩], .int32,
      .unresolved
        [.ret (some (.binary .add (.name "n" .unlocated) (.name "n" .unlocated) .unlocated))
          .unlocated] .unlocated, .unlocated⟩]

/-- The same with its functions the other way round. -/
def calleeFirst : Program := ⟨callerFirst.globals, callerFirst.functions.reverse⟩

/-- The body of the function that is called has the fourth scope in one program and the second in
the other; all runs are the same. -/
theorem calleeFirst_runs : ∃ c c', checkProgram callerFirst = .ok c ∧
    checkProgram calleeFirst = .ok c' ∧
    (c.function? "twice").map (fun f => f.body.scope) = some 4 ∧
    (c'.function? "twice").map (fun f => f.body.scope) = some 2 ∧
    (∃ elaborate : FunDecl → FunDecl,
      c.program.functions.map (FunDecl.relabel .unnumbered) =
        callerFirst.functions.map elaborate ∧
      c'.program.functions.map (FunDecl.relabel .unnumbered) =
        calleeFirst.functions.map elaborate) ∧
    ∀ (m : Machine) fuel name arguments,
      m.run c'.program fuel name arguments = m.run c.program fuel name arguments := by
  have hglobals : calleeFirst.globals = callerFirst.globals := rfl
  have hperm : callerFirst.functions.Perm calleeFirst.functions :=
    callerFirst.functions.reverse_perm.symm
  obtain ⟨c', hc', -, hfunctions, hruns⟩ := function_order_does_not_matter rfl hglobals hperm
  obtain ⟨c₁, hc₁, hscope⟩ : ∃ c₁, checkProgram calleeFirst = .ok c₁ ∧
    (c₁.function? "twice").map (fun f => f.body.scope) = some 2 := ⟨_, rfl, rfl⟩
  obtain rfl : c₁ = c' := Except.ok.inj (hc₁.symm.trans hc')
  exact ⟨_, c₁, rfl, hc', rfl, hscope, hfunctions, hruns⟩

end TypedImp
