import TypedImp.Proofs.Typing.Elaboration

/-!
# Looking names up while a tree of scopes is built

Trees of scopes are built by two operations, adding a scope below one that is there and declaring a
variable in a scope.  What a name means is asked at any time, and from any scope.  Here it is said
what the answer is, and which answers an operation changes.

## Searches and ways

A search starts in a scope and goes on from parent to parent until it finds an answer or there is no
further scope.  That it comes to an end is not a matter of course, because parents are given by
number and nothing in a number keeps it from leading back.  It is the order in which trees are built
that does: a scope is added behind its parent, and parents never change.

* `ScopeTree.Way`: from a scope to its parent and so on, to the end.
* `ScopeTree.Search`: how a search proceeds.
* `ScopeTree.Reaches`: one scope is searched from another, with nothing in between that has the
  name.
* `ScopeTree.Built`: trees that the two operations make, also when declarations are refused.
* `ScopeTree.search_iff`: **searches end**, with the answer that looking up gives.
* `ScopeTree.declared_of_declare`: which look-ups a declaration changes.
* `scope_tree_operations`: all of it.
-/

namespace TypedImp

namespace Scope

/-- No declaration of a scope has the name. -/
def Free (s : Scope) (name : String) : Prop := ∀ b ∈ s.bindings, b.name ≠ name

theorem binding?_eq_none_iff (s : Scope) (name : String) :
    s.binding? name = none ↔ s.Free name := by
  simp [binding?, Free]

/-- A declaration that is added to a scope is found, where no other has its name. -/
theorem binding?_append {s : Scope} {b : Binding} (h : s.binding? b.name = none) (name : String) :
    ({ s with bindings := s.bindings ++ [b] } : Scope).binding? name =
      if name = b.name then some b else s.binding? name := by
  unfold binding? at h ⊢
  rw [List.find?_append]
  by_cases hname : name = b.name
  · rw [if_pos hname, hname, h]
    simp
  · rw [if_neg hname, List.find?_cons_of_neg (by simpa using Ne.symm hname), List.find?_nil,
      Option.or_none]

end Scope

namespace ScopeTree

variable {t t' : ScopeTree}

/-! ## Ways and searches -/

/-- The way from a scope to the root: the scope, its parent, and so on, until a number has no
scope. -/
inductive Way (t : ScopeTree) : Nat → List Nat → Prop
  | outside {id : Nat} (h : t.get? id = none) : Way t id []
  | scope {id : Nat} {s : Scope} {ids : List Nat} (h : t.get? id = some s)
    (rest : Way t s.parent ids) : Way t id (id :: ids)

/-- A search for the first answer on the way to the root, as it proceeds: it ends outside of all
scopes or with an answer, and otherwise goes on in the parent. -/
inductive Search {α : Type} (t : ScopeTree) (answer : Scope → Option α) : Nat → Option α → Prop
  | outside {id : Nat} (h : t.get? id = none) : Search t answer id none
  | found {id : Nat} {s : Scope} {a : α} (h : t.get? id = some s) (hit : answer s = some a) :
    Search t answer id (some a)
  | onward {id : Nat} {s : Scope} {result : Option α} (h : t.get? id = some s)
    (missing : answer s = none) (rest : Search t answer s.parent result) :
    Search t answer id result

/-- From the scope `j` a search for a name gets to the scope `id`: none of the scopes before has the
name. -/
inductive Reaches (t : ScopeTree) (name : String) (id : Nat) : Nat → Prop
  | here : Reaches t name id id
  | onward {j : Nat} {s : Scope} (h : t.get? j = some s) (free : s.Free name)
    (rest : Reaches t name id s.parent) : Reaches t name id j

/-- Every scope has a way to the root. -/
theorem WellFormed.exists_way (h : t.WellFormed) (id : Nat) : ∃ ids, t.Way id ids := by
  -- The induction is on the number of the scope: that of its parent is smaller.
  induction id using Nat.strongRecOn with
  | ind id ih =>
    cases hs : t.get? id with
    | none => exact ⟨[], .outside hs⟩
    | some s =>
      obtain ⟨ids, hids⟩ := ih s.parent (h id s hs).1
      exact ⟨id :: ids, .scope hs hids⟩

theorem Way.unique {id : Nat} {ids ids' : List Nat} (h : t.Way id ids) (h' : t.Way id ids') :
    ids' = ids := by
  induction h generalizing ids' with
  | outside h =>
    cases h' with
    | outside => rfl
    | scope hs => rw [h] at hs; cases hs
  | scope h _ ih =>
    cases h' with
    | outside hs => rw [h] at hs; cases hs
    | scope hs rest =>
      obtain rfl := Option.some.inj (h.symm.trans hs)
      rw [ih rest]

/-- On the way numbers get smaller, so no scope is on it twice. -/
theorem Way.descends (h : t.WellFormed) {id : Nat} {ids : List Nat} (hway : t.Way id ids) :
    (∀ j ∈ ids, j ≤ id) ∧ ids.Pairwise (· > ·) := by
  induction hway with
  | outside => exact ⟨fun j hj => absurd hj List.not_mem_nil, .nil⟩
  | @scope id s ids hs _ ih =>
    have hparent : s.parent < id := (h id s hs).1
    have hbelow : ∀ j ∈ ids, j < id := fun j hj => Nat.lt_of_le_of_lt (ih.1 j hj) hparent
    constructor
    · intro j hj
      rcases List.mem_cons.mp hj with rfl | hj
      · exact Nat.le_refl j
      · exact Nat.le_of_lt (hbelow j hj)
    · exact List.pairwise_cons.mpr ⟨hbelow, ih.2⟩

section FirstAnswer

variable {α : Type} (answer : Scope → Option α)

theorem chain_findSome?_of_none {id : Nat} (hs : t.get? id = none) :
    (t.chain id).findSome? answer = none := by
  rw [chain_eq_nil hs, List.findSome?_nil]

theorem chain_findSome?_of_some (h : t.WellFormed) {id : Nat} {s : Scope}
    (hs : t.get? id = some s) :
    (t.chain id).findSome? answer = (answer s).or ((t.chain s.parent).findSome? answer) := by
  rw [chain_eq_cons h hs, List.findSome?_cons]
  cases answer s <;> rfl

/-- The answer is the first one on the way to the root. -/
theorem Way.chain_findSome? (h : t.WellFormed) {id : Nat} {ids : List Nat} (hway : t.Way id ids) :
    (t.chain id).findSome? answer = ids.findSome? fun j => (t.get? j).bind answer := by
  induction hway with
  | outside hs => rw [chain_findSome?_of_none answer hs, List.findSome?_nil]
  | scope hs _ ih =>
    rw [chain_findSome?_of_some answer h hs, ih, List.findSome?_cons, hs, Option.bind_some]
    cases answer _ <;> rfl

/-- **Searches end**, and with the first answer in the scopes up to the root. -/
theorem search_iff (h : t.WellFormed) (id : Nat) (result : Option α) :
    t.Search answer id result ↔ result = (t.chain id).findSome? answer := by
  constructor
  · intro hsearch
    induction hsearch with
    | outside hs => rw [chain_findSome?_of_none answer hs]
    | found hs hit => rw [chain_findSome?_of_some answer h hs, hit, Option.some_or]
    | onward hs missing _ ih =>
      rw [chain_findSome?_of_some answer h hs, missing, Option.none_or, ih]
  · rintro rfl
    induction id using Nat.strongRecOn with
    | ind id ih =>
      cases hs : t.get? id with
      | none =>
        rw [chain_findSome?_of_none answer hs]
        exact .outside hs
      | some s =>
        rw [chain_findSome?_of_some answer h hs]
        cases hanswer : answer s with
        | none => exact .onward hs hanswer (ih s.parent (h id s hs).1)
        | some a => exact .found hs hanswer

end FirstAnswer

/-! ## Which answers a change leaves alone -/

/-- Where two trees have the same parents and the same answers, searches give the same. -/
theorem chain_findSome?_congr {α : Type} {answer : Scope → Option α} (h : t.WellFormed)
    (h' : t'.WellFormed) (hparent : ∀ j, (t'.get? j).map Scope.parent = (t.get? j).map Scope.parent)
    (hanswer : ∀ j, (t'.get? j).map answer = (t.get? j).map answer) (id : Nat) :
    (t'.chain id).findSome? answer = (t.chain id).findSome? answer := by
  induction id using Nat.strongRecOn with
  | ind id ih =>
    have hp := hparent id
    have ha := hanswer id
    cases hs : t.get? id with
    | none =>
      rw [hs] at hp
      rw [chain_findSome?_of_none answer hs,
        chain_findSome?_of_none answer (Option.map_eq_none_iff.mp hp)]
    | some s =>
      rw [hs] at hp ha
      obtain ⟨s', hs', hp'⟩ := Option.map_eq_some_iff.mp hp
      rw [hs'] at ha
      have ha' : answer s' = answer s := Option.some.inj ha
      rw [chain_findSome?_of_some answer h hs, chain_findSome?_of_some answer h' hs', hp', ha',
        ih s.parent (h id s hs).1]

/-- What a declaration does to the answers: it is found where a search for its name gets to its
scope, and nothing else changes. -/
structure Declared (t : ScopeTree) (id : Nat) (b : Binding) (t' : ScopeTree) : Prop where
  here : t'.lookup? id b.name = some b
  others : ∀ j name, name ≠ b.name → t'.lookup? j name = t.lookup? j name
  /-- In the scopes below that do not hide the declaration. -/
  reached : ∀ j, t.Reaches b.name id j → t'.lookup? j b.name = some b
  /-- In the scopes that hide it, and in those that are not below. -/
  unreached : ∀ j, ¬ t.Reaches b.name id j → t'.lookup? j b.name = t.lookup? j b.name
  results : ∀ j, t'.result? j = t.result? j

section Declaring

variable {id : Nat} {b : Binding} {span : Span}

/-- A declaration is accepted where there is a scope that is free of its name. -/
theorem exists_declare_eq_ok_iff :
    (∃ t', t.declare id b span = .ok t') ↔ ∃ s, t.get? id = some s ∧ s.Free b.name := by
  constructor
  · rintro ⟨t', hd⟩
    obtain ⟨s, hs, hfree, -, -⟩ := declare_eq_ok hd
    exact ⟨s, hs, (s.binding?_eq_none_iff b.name).mp hfree⟩
  · rintro ⟨s, hs, hfree⟩
    have hnone := (s.binding?_eq_none_iff b.name).mpr hfree
    unfold declare
    rw [hs]
    simp only [hnone]
    exact ⟨_, rfl⟩

/-- A declaration leaves everything about the scopes alone that does not concern its name. -/
theorem map_get?_of_declare {α : Type} {f : Scope → α} (hd : t.declare id b span = .ok t')
    (hf : ∀ s : Scope, s.binding? b.name = none →
      f { s with bindings := s.bindings ++ [b] } = f s) (j : Nat) :
    (t'.get? j).map f = (t.get? j).map f := by
  obtain ⟨s, hs, hfree, -, hget⟩ := declare_eq_ok hd
  by_cases hj : j = id
  · rw [hget, if_pos hj, hj, hs, Option.map_some, Option.map_some, hf s hfree]
  · rw [hget, if_neg hj]

/-- The scope of a declaration answers with it. -/
theorem lookup?_of_declare_here (h : t.WellFormed) (hd : t.declare id b span = .ok t') :
    t'.lookup? id b.name = some b := by
  obtain ⟨s, -, hfree, -, hget⟩ := declare_eq_ok hd
  have hs' := hget id
  rw [if_pos rfl] at hs'
  unfold lookup?
  rw [chain_findSome?_of_some _ (h.declare hd) hs', Scope.binding?_append hfree, if_pos rfl,
    Option.some_or]

theorem lookup?_of_declare_reached (h : t.WellFormed) (hd : t.declare id b span = .ok t') {j : Nat}
    (hreaches : t.Reaches b.name id j) : t'.lookup? j b.name = some b := by
  induction hreaches with
  | here => exact lookup?_of_declare_here h hd
  | @onward j s hs free _ ih =>
    by_cases hj : j = id
    · rw [hj]
      exact lookup?_of_declare_here h hd
    · obtain ⟨_, -, -, -, hget⟩ := declare_eq_ok hd
      have hs' : t'.get? j = some s := by rw [hget, if_neg hj, hs]
      unfold lookup? at ih ⊢
      rw [chain_findSome?_of_some _ (h.declare hd) hs', (s.binding?_eq_none_iff b.name).mpr free,
        Option.none_or, ih]

/-- A search that does not get to the scope of a declaration ends before, with what it found so
far, or passes by. -/
theorem lookup?_of_declare_unreached (h : t.WellFormed) (hd : t.declare id b span = .ok t')
    {j : Nat} (hreaches : ¬ t.Reaches b.name id j) :
    t'.lookup? j b.name = t.lookup? j b.name := by
  induction j using Nat.strongRecOn with
  | ind j ih =>
    have hj : j ≠ id := fun hj => hreaches (hj ▸ .here)
    obtain ⟨_, -, -, -, hget⟩ := declare_eq_ok hd
    have hsame : t'.get? j = t.get? j := by rw [hget, if_neg hj]
    unfold lookup? at ih ⊢
    cases hs : t.get? j with
    | none => rw [chain_findSome?_of_none _ hs, chain_findSome?_of_none _ (hsame.trans hs)]
    | some s =>
      rw [chain_findSome?_of_some _ h hs,
        chain_findSome?_of_some _ (h.declare hd) (hsame.trans hs)]
      cases hb : s.binding? b.name with
      | some c => rw [Option.some_or, Option.some_or]
      | none =>
        -- From the parent the search must not get there either, or it would from here.
        have free := (s.binding?_eq_none_iff b.name).mp hb
        rw [ih s.parent (h j s hs).1 fun hrest => hreaches (.onward hs free hrest)]

/-- **The effect of a declaration** that is accepted. -/
theorem declared_of_declare (h : t.WellFormed) (hd : t.declare id b span = .ok t') :
    t.Declared id b t' where
  here := lookup?_of_declare_here h hd
  others j name hname := by
    refine chain_findSome?_congr h (h.declare hd)
      (map_get?_of_declare hd fun _ _ => rfl) (map_get?_of_declare hd fun s hfree => ?_) j
    rw [Scope.binding?_append hfree, if_neg hname]
  reached j := lookup?_of_declare_reached h hd
  unreached j := lookup?_of_declare_unreached h hd
  results j :=
    chain_findSome?_congr h (h.declare hd)
      (map_get?_of_declare hd fun _ _ => rfl) (map_get?_of_declare hd fun _ _ => rfl) j

end Declaring

theorem Extends.lookup?_eq (h : t.WellFormed) (he : Extends t t') {id : Nat} (hid : id ≤ t.size)
    (name : String) : t'.lookup? id name = t.lookup? id name := by
  unfold lookup?
  rw [chain_congr h he.wellFormed id fun j hj => he.get?_eq j (Nat.le_trans hj hid)]

/-! ## Trees as they are built -/

end ScopeTree

namespace Check

theorem declare_eq_ok_iff {t t' : ScopeTree} {id : Nat} {b : Binding} {span : Span} :
    declare id b span t = .ok () t' ↔ t.declare id b span = .ok t' :=
  ⟨declare_eq_ok, declare_of_ok⟩

/-- A declaration that is refused leaves the tree as it is. -/
theorem declare_eq_error {t t' : ScopeTree} {id : Nat} {b : Binding} {span : Span} {e : Error}
    (h : declare id b span t = .error e t') : t' = t := by
  change (ofExcept (t.declare id b span) >>= fun s => set s : Check Unit) t = .error e t' at h
  cases hd : t.declare id b span with
  | ok t'' => rw [hd] at h; cases h
  | error e' => rw [hd] at h; cases h; rfl

end Check

namespace ScopeTree

/-- The trees that come about from the first one by adding scopes below those that are there, and by
declaring variables, with success or without. -/
inductive Built : ScopeTree → Prop
  | initial : Built .initial
  | scope {t t' : ScopeTree} {parent id : Nat} {result : Option Ty} (h : Built t)
    (existing : parent ≤ t.size) (added : Check.addScope parent result t = .ok id t') : Built t'
  | declared {t t' : ScopeTree} {id : Nat} {b : Binding} {span : Span} (h : Built t)
    (accepted : Check.declare id b span t = .ok () t') : Built t'
  | refused {t t' : ScopeTree} {id : Nat} {b : Binding} {span : Span} {e : Error} (h : Built t)
    (refused : Check.declare id b span t = .error e t') : Built t'

theorem Built.wellFormed {t : ScopeTree} (h : t.Built) : t.WellFormed := by
  induction h with
  | initial => exact wellFormed_initial
  | scope _ existing added ih =>
    obtain ⟨-, rfl⟩ := Check.addScope_eq_ok added
    exact ih.add existing _
  | declared _ accepted ih => exact ih.declare (Check.declare_eq_ok accepted)
  | refused _ refused ih =>
    rw [Check.declare_eq_error refused]
    exact ih

end ScopeTree

/-- **Scope trees.**  In every tree that is built by adding scopes and declaring variables

* each scope has one way to the root, on which the numbers get smaller, and looking up a name or the
  required result gives the first answer on it;
* the searches that go from parent to parent end with these answers;
* a declaration is accepted exactly in a scope that is free of its name, a refused one leaves the
  tree as it is, and an accepted one changes the answers that `ScopeTree.Declared` says;
* a scope that is added changes no answer in the scopes before. -/
theorem scope_tree_operations {t : ScopeTree} (built : t.Built) :
    (∀ id, ∃ ids, t.Way id ids ∧ (∀ ids', t.Way id ids' → ids' = ids) ∧ ids.Pairwise (· > ·) ∧
      (∀ name, t.lookup? id name = ids.findSome? fun j => (t.get? j).bind (·.binding? name)) ∧
      t.result? id = ids.findSome? fun j => (t.get? j).bind (·.result)) ∧
    (∀ id name found, t.Search (·.binding? name) id found ↔ found = t.lookup? id name) ∧
    (∀ id found, t.Search (·.result) id found ↔ found = t.result? id) ∧
    (∀ id b span,
      ((∃ t', Check.declare id b span t = .ok () t') ↔ ∃ s, t.get? id = some s ∧ s.Free b.name) ∧
      (∀ e t', Check.declare id b span t = .error e t' → t' = t) ∧
      ∀ t', Check.declare id b span t = .ok () t' → t.Declared id b t') ∧
    ∀ parent result, parent ≤ t.size →
      ∃ t', Check.addScope parent result t = .ok (t.size + 1) t' ∧
        ∀ id ≤ t.size, (∀ name, t'.lookup? id name = t.lookup? id name) ∧
          t'.result? id = t.result? id := by
  have hwf := built.wellFormed
  refine ⟨fun id => ?ways, fun id name => ScopeTree.search_iff _ hwf id,
    fun id => ScopeTree.search_iff _ hwf id, fun id b span => ⟨?accepted, ?refusal, ?effect⟩,
    fun parent result existing => ?added⟩
  case ways =>
    obtain ⟨ids, hway⟩ := hwf.exists_way id
    exact ⟨ids, hway, fun ids' => hway.unique, (hway.descends hwf).2,
      fun name => hway.chain_findSome? _ hwf, hway.chain_findSome? _ hwf⟩
  case accepted =>
    exact (exists_congr fun t' => Check.declare_eq_ok_iff).trans ScopeTree.exists_declare_eq_ok_iff
  case refusal => exact fun e t' => Check.declare_eq_error
  case effect =>
    intro t' h
    exact ScopeTree.declared_of_declare hwf (Check.declare_eq_ok h)
  case added =>
    have hextends := ScopeTree.extends_add hwf existing result
    exact ⟨t.add parent result, Check.addScope_eq t parent result, fun id hid =>
      ⟨hextends.lookup?_eq hwf hid, hextends.result?_eq hwf hid⟩⟩

/-- A variable of the globals, a function that gives a truth value, and a block in it. -/
def nestedScopes : ScopeTree :=
  ⟨#[⟨0, [⟨"x", ⟨.int32, false⟩⟩], none⟩, .fresh 1 (some .bool), .fresh 2 none]⟩

theorem built_nestedScopes : nestedScopes.Built :=
  have globals : Check.declare 1 ⟨"x", ⟨.int32, false⟩⟩ .unlocated .initial = .ok () _ := rfl
  .scope (.scope (.declared .initial globals) (by decide) rfl) (by decide) rfl

/-- From outside, a search does not get into a function. -/
theorem nestedScopes_not_reaches : ¬ nestedScopes.Reaches "x" 2 1 := by
  rintro (_ | ⟨hs, free, -⟩)
  obtain rfl := Option.some.inj hs
  exact free _ (List.mem_singleton_self _) rfl

/-- A variable of the function hides that of the globals in the block too, and only inside of the
function.  One more block sees what the block around it sees. -/
theorem nestedScopes_operations :
    nestedScopes.Built ∧
      (∃ t', Check.declare 2 ⟨"x", ⟨.float32, true⟩⟩ .unlocated nestedScopes = .ok () t' ∧
        t'.lookup? 3 "x" = some ⟨"x", ⟨.float32, true⟩⟩ ∧
        t'.lookup? 1 "x" = some ⟨"x", ⟨.int32, false⟩⟩) ∧
      ∃ t', Check.addScope 3 none nestedScopes = .ok 4 t' ∧
        t'.lookup? 3 "x" = some ⟨"x", ⟨.int32, false⟩⟩ ∧ t'.result? 3 = some .bool := by
  obtain ⟨-, -, -, hdeclare, hadd⟩ := scope_tree_operations built_nestedScopes
  obtain ⟨haccepted, -, heffect⟩ := hdeclare 2 ⟨"x", ⟨.float32, true⟩⟩ .unlocated
  obtain ⟨t', ht'⟩ := haccepted.mpr ⟨.fresh 1 (some .bool), rfl, List.forall_mem_nil _⟩
  obtain ⟨t'', ht'', hsame⟩ := hadd 3 none (by decide)
  obtain ⟨hlookup, hresult⟩ := hsame 3 (by decide)
  have hblock : nestedScopes.Reaches "x" 2 3 :=
    .onward (s := .fresh 2 none) rfl (List.forall_mem_nil _) .here
  refine ⟨built_nestedScopes, ⟨t', ht', (heffect t' ht').reached 3 hblock, ?outside⟩,
    t'', ht'', (hlookup "x").trans (by decide), hresult.trans (by decide)⟩
  case outside =>
    exact ((heffect t' ht').unreached 1 nestedScopes_not_reaches).trans (by decide)

end TypedImp
