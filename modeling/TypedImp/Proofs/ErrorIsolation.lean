import Mathlib.Data.List.ReduceOption
import TypedImp.Proofs.Places.Checked
import TypedImp.Proofs.Typing.SameView

/-!
# One function's errors are its own

All functions of a program are checked with one tree of scopes.  A function that fails ends at its
first error, at any depth of nested blocks, and leaves behind in the tree whatever it had added up
to there.  Still the next function is checked as if nothing had happened: what was added are whole
scopes behind the old ones, and from the scope of the globals none of them can be seen.

## What is compared

Checking the items of a list gives a *verdict* on each of them, an error or none; the errors that
are reported are the verdicts without the gaps.  That the verdict on a function is its own is said
twice: it is the verdict on the function checked alone, right behind the globals, and it stays the
same when all other functions are given other bodies.

* `Check.error?`, `Check.remains`: how a check ends, and the tree that it leaves behind.
* `verdicts`: the verdicts on the items of a list, one after the other.
* `FunDecl.heading`: all that other functions need to know of a function.
* `Program.errors`: the errors of a program by what they are about.
* `errors_are_isolated`: **the errors of a program, and on what each of them depends**.
-/

namespace TypedImp

open ScopeTree (SameView)

/-! ## Verdicts -/

namespace Check

/-- The error that a check ends with, if it fails. -/
def error? {α : Type} (x : Check α) (t : ScopeTree) : Option Error :=
  match x t with
  | .ok _ _ => none
  | .error e _ => some e

/-- The tree that a check leaves behind, however it ends. -/
def remains {α : Type} (x : Check α) (t : ScopeTree) : ScopeTree :=
  match x t with
  | .ok _ t' | .error _ t' => t'

/-- Checks that come to the same end have the same error, or none. -/
theorem error?_eq_of_sameEnd {α : Type} {V : ScopeTree → ScopeTree → Prop} {R : α → α → Prop}
    {x y : Check α} {t t' : ScopeTree} (h : SameEnd V R (x t) (y t')) :
    x.error? t = y.error? t' := by
  unfold error?
  generalize x t = end₁ at h ⊢
  generalize y t' = end₂ at h ⊢
  cases h with
  | ok related view => rfl
  | error e t t' => rfl

end Check

section Verdicts

variable {α : Type} (check : α → Check α)

/-- The verdicts on items that are checked one after the other, whatever becomes of those before:
for each item the error that was found in it, or none. -/
def verdicts : List α → ScopeTree → List (Option Error)
  | [], _ => []
  | item :: items, scopes =>
    (check item).error? scopes :: verdicts items ((check item).remains scopes)

theorem length_verdicts (items : List α) (t : ScopeTree) :
    (verdicts check items t).length = items.length := by
  induction items generalizing t with
  | nil => rfl
  | cons item items ih => rw [verdicts, List.length_cons, List.length_cons, ih]

/-- The errors that are collected are the verdicts without the gaps. -/
theorem errors_collect (items : List α) (t : ScopeTree) :
    (collect check items t).errors = (verdicts check items t).reduceOption := by
  induction items generalizing t with
  | nil => rfl
  | cons item items ih =>
    rw [collect, verdicts, Check.error?, Check.remains]
    cases check item t with
    | ok passed t' => exact (ih t').trans (List.reduceOption_cons_of_none _).symm
    | error e t' =>
      exact (congrArg (e :: ·) (ih t')).trans (List.reduceOption_cons_of_some e _).symm

end Verdicts

/-! ## Names -/

namespace FunDecl

/-- What the checking of other functions needs to know of a function: its name, the types of its
parameters and the type of its result. -/
def heading (f : FunDecl) : String × Signature := (f.name, f.signature)

end FunDecl

/-- The table of signatures depends on the headings of the functions only. -/
theorem signatures_congr : ∀ {fs fs' : List FunDecl},
    fs'.map FunDecl.heading = fs.map FunDecl.heading → ∀ s : Signatures,
    (collectSignatures fs' s).2 = (collectSignatures fs s).2
  | [], fs', h, s => by
    rw [List.map_eq_nil_iff.mp h]
  | f :: fs, [], h, s => by cases h
  | f :: fs, f' :: fs', h, s => by
    obtain ⟨hhead, hrest⟩ := List.cons.inj h
    have hname : f'.name = f.name := congrArg Prod.fst hhead
    have hsignature : f'.signature = f.signature := congrArg Prod.snd hhead
    rw [collectSignatures, collectSignatures, hname, hsignature]
    split
    · exact signatures_congr hrest s
    · exact signatures_congr hrest _

/-- Whether a function has a name that it may not have: that of the builtin, or that of a function
before it. -/
def FunDecl.Repeats (before : List FunDecl) (f : FunDecl) : Prop :=
  f.name = Builtin.print ∨ ∃ g ∈ before, g.name = f.name

instance (before : List FunDecl) (f : FunDecl) : Decidable (f.Repeats before) :=
  inferInstanceAs (Decidable (_ ∨ _))

/-- The errors of functions with names that they may not have, each with the functions before it. -/
def repetitions (fs : List FunDecl) : List Error :=
  (fs.zipIdx.filter fun (f, i) => f.Repeats (fs.take i)).map fun (f, _) =>
    ⟨.functionRedeclared f.name, f.span⟩

/-- While names are collected, the names in the table are those of the functions passed, but for
that of the builtin. -/
def Signatures.Tabulates (s : Signatures) (before : List FunDecl) : Prop :=
  ∀ name, name ≠ Builtin.print → ((s.get? name).isSome ↔ ∃ g ∈ before, g.name = name)

theorem Signatures.Tabulates.repeats_iff {s : Signatures} {before : List FunDecl}
    (h : s.Tabulates before) (f : FunDecl) :
    f.Repeats before ↔ f.name = Builtin.print ∨ (s.get? f.name).isSome := by
  unfold FunDecl.Repeats
  by_cases hprint : f.name = Builtin.print
  · simp [hprint]
  · rw [h f.name hprint]

/-- A function with a name that it may not have adds nothing to the table. -/
theorem Signatures.Tabulates.skip {s : Signatures} {before : List FunDecl} (h : s.Tabulates before)
    {f : FunDecl} (hrepeats : f.Repeats before) : s.Tabulates (before ++ [f]) := by
  intro name hname
  rw [h name hname]
  constructor
  · rintro ⟨g, hg, rfl⟩
    exact ⟨g, List.mem_append_left _ hg, rfl⟩
  · rintro ⟨g, hg, rfl⟩
    rcases List.mem_append.mp hg with hg | hg
    · exact ⟨g, hg, rfl⟩
    · obtain rfl := List.mem_singleton.mp hg
      exact hrepeats.resolve_left hname

theorem Signatures.Tabulates.insert {s : Signatures} {before : List FunDecl}
    (h : s.Tabulates before) (f : FunDecl) :
    (s.insert f.name f.signature).Tabulates (before ++ [f]) := by
  intro name hname
  rw [Signatures.get?_insert]
  by_cases hf : name = f.name
  · rw [if_pos hf]
    exact ⟨fun _ => ⟨f, by simp, hf.symm⟩, fun _ => rfl⟩
  · rw [if_neg hf, h name hname]
    constructor
    · rintro ⟨g, hg, rfl⟩
      exact ⟨g, List.mem_append_left _ hg, rfl⟩
    · rintro ⟨g, hg, rfl⟩
      rcases List.mem_append.mp hg with hg | hg
      · exact ⟨g, hg, rfl⟩
      · exact absurd (congrArg FunDecl.name (List.mem_singleton.mp hg)) hf

theorem nameErrors_eq : ∀ (fs before : List FunDecl) {s : Signatures}, s.Tabulates before →
    (collectSignatures fs s).1 =
      ((fs.zipIdx before.length).filter fun (f, i) => f.Repeats ((before ++ fs).take i)).map
        fun (f, _) => ⟨.functionRedeclared f.name, f.span⟩
  | [], before, s, _ => rfl
  | f :: fs, before, s, h => by
    have hbefore : (before ++ f :: fs).take before.length = before := List.take_left
    have hnext : before ++ f :: fs = (before ++ [f]) ++ fs := by simp
    have hlength : (before ++ [f]).length = before.length + 1 := by simp
    simp only [List.zipIdx_cons, List.filter_cons, hbefore, decide_eq_true_eq]
    rw [hnext, ← hlength]
    by_cases hrepeats : f.Repeats before
    · have hused := (h.repeats_iff f).mp hrepeats
      rw [collectSignatures, if_pos hused, if_pos hrepeats, List.map_cons,
        ← nameErrors_eq fs (before ++ [f]) (h.skip hrepeats)]
    · have hfree := fun hused => hrepeats ((h.repeats_iff f).mpr hused)
      rw [collectSignatures, if_neg hfree, if_neg hrepeats,
        ← nameErrors_eq fs (before ++ [f]) (h.insert f)]

/-- The errors about names are those of the functions whose names are repeated. -/
theorem nameErrors_eq_repetitions (fs : List FunDecl) :
    (collectSignatures fs []).1 = repetitions fs :=
  nameErrors_eq fs [] fun name _ => by simp [Signatures.get?]

/-! ## Functions -/

section Functions

variable {signatures : Signatures}

/-- Whatever a function leaves behind, the tree looks from the scope of the globals as it did
before. -/
theorem sameView_remains (f : FunDecl) {t t' : ScopeTree}
    (hview : SameView t ScopeTree.globalId t' ScopeTree.globalId) :
    SameView t ScopeTree.globalId ((checkFunction signatures f).remains t')
      ScopeTree.globalId := by
  obtain ⟨scope, hs⟩ := hview.exists_scope'
  have hall : f.AllSpans fun _ => True :=
    ⟨fun _ _ => trivial, Stmt.forall_allSpans_of_forall (fun _ => trivial) f.body.body, trivial⟩
  have hfinds : Check.FindsApart _ _ (checkFunction signatures f) t' :=
    checkFunction_findsApart hall hview.wellFormed' (Option.isSome_iff_exists.mpr ⟨scope, hs⟩)
  have hextends : ScopeTree.Extends t' ((checkFunction signatures f).remains t') := by
    unfold Check.FindsApart at hfinds
    unfold Check.remains
    generalize checkFunction signatures f t' = outcome at hfinds ⊢
    cases outcome with
    | ok f' t₁ => exact hfinds.1
    | error e t₁ => exact hfinds.1
  exact hview.trans (.of_extends hview.wellFormed' hextends hs)

/-- **The verdict on a function is that on the function alone**, with nothing but the globals in the
tree, whatever the functions before it have left behind. -/
theorem verdicts_functions {t : ScopeTree} : ∀ (fs : List FunDecl) {t' : ScopeTree},
    SameView t ScopeTree.globalId t' ScopeTree.globalId →
    verdicts (checkFunction signatures) fs t' =
      fs.map fun f => (checkFunction signatures f).error? t
  | [], _, _ => rfl
  | f :: fs, t', hview => by
    have hfirst := @checkFunction_sameView signatures signatures (fun _ => rfl) f t' t hview.symm
    rw [verdicts, List.map_cons, Check.error?_eq_of_sameEnd hfirst,
      verdicts_functions fs (sameView_remains f hview)]

end Functions

/-! ## Programs -/

namespace Program

/-- The signatures that bodies and initializers are checked with. -/
def signatures (p : Program) : Signatures := (collectSignatures p.functions []).2

/-- The verdicts on the globals, in order. -/
def globalVerdicts (p : Program) : List (Option Error) :=
  verdicts (checkVarDecl p.signatures ScopeTree.globalId) p.globals .initial

/-- The tree of scopes when all globals have been checked and no function has. -/
def globalScopes (p : Program) : ScopeTree :=
  (collect (checkVarDecl p.signatures ScopeTree.globalId) p.globals .initial).scopes

/-- The verdicts on the functions, in order. -/
def functionVerdicts (p : Program) : List (Option Error) :=
  verdicts (checkFunction p.signatures) p.functions p.globalScopes

/-- The errors of a program: those about names, those of the globals, those of the functions. -/
def errors (p : Program) : List Error :=
  repetitions p.functions ++ p.globalVerdicts.reduceOption ++ p.functionVerdicts.reduceOption

end Program

theorem sameView_globalScopes (p : Program) :
    SameView p.globalScopes ScopeTree.globalId p.globalScopes ScopeTree.globalId := by
  have hglobals := collect_finds (checkVarDecl p.signatures ScopeTree.globalId) p.globals
    (fun decl _ _ => checkVarDecl_finds (decl.allSpans_of_forall (P := fun _ => True)
      fun _ => trivial)) ScopeTree.wellFormed_initial rfl
  obtain ⟨scope, hs⟩ := Option.isSome_iff_exists.mp hglobals.globals
  exact .refl hglobals.wellFormed hs

/-- Checking a program gives its errors, if it has any. -/
theorem checkProgram_errors (p : Program) :
    match checkProgram p with
    | .ok _ => p.errors = []
    | .error errors => errors = p.errors ∧ errors ≠ [] := by
  have herrors : (collectSignatures p.functions []).1 ++
      (collect (checkVarDecl p.signatures ScopeTree.globalId) p.globals .initial).errors ++
      (collect (checkFunction p.signatures) p.functions p.globalScopes).errors = p.errors := by
    rw [nameErrors_eq_repetitions, errors_collect, errors_collect]
    rfl
  rw [← herrors]
  unfold checkProgram Program.globalScopes Program.signatures
  dsimp only
  generalize (collectSignatures p.functions []).1 ++ _ ++ _ = errors
  cases errors with
  | nil => rfl
  | cons e errors => exact ⟨rfl, List.cons_ne_nil e errors⟩

/-- **Errors are isolated.**  A program passes if it has no errors, and otherwise checking reports
all of them: one for each function with the name of the builtin or of a function before it, at most
one for each global and at most one for each function, in this order.

* The verdict on a function is that on the function alone, behind the globals.
* In a program with the same globals, and with functions of the same names and signatures, the
  verdicts on the globals are the same, and so is that on every function that is in both programs at
  one place, whatever bodies the other functions have. -/
theorem errors_are_isolated (p : Program) :
    (match checkProgram p with
      | .ok _ => p.errors = []
      | .error errors => errors = p.errors ∧ errors ≠ []) ∧
    p.globalVerdicts.length = p.globals.length ∧
    p.functionVerdicts.length = p.functions.length ∧
    p.functionVerdicts =
      p.functions.map (fun f => (checkFunction p.signatures f).error? p.globalScopes) ∧
    ∀ p' : Program, p'.globals = p.globals →
      p'.functions.map FunDecl.heading = p.functions.map FunDecl.heading →
      p'.globalVerdicts = p.globalVerdicts ∧
      ∀ (i : Nat) (f : FunDecl), p.functions[i]? = some f → p'.functions[i]? = some f →
        p'.functionVerdicts[i]? = p.functionVerdicts[i]? := by
  have halone : ∀ p : Program, p.functionVerdicts =
      p.functions.map fun f => (checkFunction p.signatures f).error? p.globalScopes :=
    fun p => verdicts_functions p.functions (sameView_globalScopes p)
  refine ⟨checkProgram_errors p, length_verdicts _ _ _, length_verdicts _ _ _, halone p, ?_⟩
  intro p' hglobals hheadings
  have hsignatures : p'.signatures = p.signatures := signatures_congr hheadings []
  have hscopes : p'.globalScopes = p.globalScopes := by
    rw [Program.globalScopes, Program.globalScopes, hsignatures, hglobals]
  refine ⟨?_, fun i f hf hf' => ?_⟩
  · rw [Program.globalVerdicts, Program.globalVerdicts, hsignatures, hglobals]
  · rw [halone p, halone p', hsignatures, hscopes, List.getElem?_map, List.getElem?_map, hf, hf']

end TypedImp
