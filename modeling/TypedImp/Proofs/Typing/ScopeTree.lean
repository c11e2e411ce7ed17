import TypedImp.Proofs.Typing.Rules

/-!
# Trees of scopes while they grow

Checking a statement looks names up in a tree that is still growing.  What keeps the look-ups stable
is that a scope stands behind its parent: then the way from a scope to the root only passes smaller
numbers, and adding scopes with larger numbers does not change it.

* `ScopeTree.WellFormed`: parents come first, and no scope declares a name twice.
* `ScopeTree.chain_eq_cons`, `ScopeTree.chain_congr`: the way to the root, step by step, and that it
  depends on smaller numbers only.
* `ScopeTree.Extends`: a tree that grew by whole scopes.
* `ScopeTree.ExtendsAt`: a tree that grew by whole scopes and by declarations in one scope.
* `ScopeTree.visible`: the declarations that can be seen from a scope.
-/

namespace TypedImp

namespace ScopeTree

/-- Every scope has a smaller number as its parent, and declares no name twice. -/
def WellFormed (t : ScopeTree) : Prop :=
  ∀ id scope, t.get? id = some scope →
    scope.parent < id ∧ (scope.bindings.map Binding.name).Nodup

/-! ## Single scopes -/

@[simp] theorem get?_zero (t : ScopeTree) : t.get? 0 = none := rfl

@[simp] theorem size_add (t : ScopeTree) (parent : Nat) (result : Option Ty) :
    (t.add parent result).size = t.size + 1 := by
  simp [add, size]

/-- A number belongs to a scope when it lies between one and the number of scopes. -/
theorem isSome_get?_iff (t : ScopeTree) (id : Nat) :
    (t.get? id).isSome = true ↔ 1 ≤ id ∧ id ≤ t.size := by
  cases id with
  | zero => simp
  | succ n =>
    simp only [get?, size]
    rw [isSome_getElem?]
    omega

theorem le_size_of_get? {t : ScopeTree} {id : Nat} {scope : Scope} (h : t.get? id = some scope) :
    id ≤ t.size :=
  ((t.isSome_get?_iff id).mp (by rw [h]; rfl)).2

theorem get?_add (t : ScopeTree) (parent : Nat) (result : Option Ty) (id : Nat) :
    (t.add parent result).get? id =
      if id = t.size + 1 then some (.fresh parent result) else t.get? id := by
  cases id with
  | zero => simp
  | succ n =>
    have hsize : t.size = t.scopes.size := rfl
    simp only [get?, add, Array.getElem?_push]
    by_cases h : n = t.scopes.size
    · rw [if_pos h, if_pos (by omega)]
    · rw [if_neg h, if_neg (by omega)]

/-- A declaration that is accepted goes behind those of its scope, and changes nothing else. -/
theorem declare_eq_ok {t t' : ScopeTree} {id : Nat} {b : Binding} {span : Span}
    (h : t.declare id b span = .ok t') :
    ∃ scope, t.get? id = some scope ∧ scope.binding? b.name = none ∧ t'.size = t.size ∧
      ∀ j, t'.get? j = if j = id then some { scope with bindings := scope.bindings ++ [b] }
        else t.get? j := by
  unfold declare at h
  cases hs : t.get? id with
  | none => rw [hs] at h; simp at h
  | some scope =>
    rw [hs] at h
    cases hb : scope.binding? b.name with
    | some c => simp [hb] at h
    | none =>
      simp only [hb, Except.ok.injEq] at h
      have hid := (t.isSome_get?_iff id).mp (by rw [hs]; rfl)
      refine ⟨scope, rfl, hb, by rw [← h]; simp [size], fun j => ?_⟩
      cases j with
      | zero => rw [if_neg (by omega)]; rfl
      | succ n =>
        rw [← h]
        simp only [get?, Array.getElem?_setIfInBounds]
        by_cases hn : n + 1 = id
        · rw [if_pos hn, if_pos (by omega), if_pos (by unfold size at hid; omega)]
        · rw [if_neg hn, if_neg (by omega)]

/-! ## Well-formed trees -/

theorem wellFormed_initial : initial.WellFormed := by
  intro id scope h
  have hid : id = 1 := by
    have := (initial.isSome_get?_iff id).mp (by rw [h]; rfl)
    have hsize : initial.size = 1 := rfl
    omega
  subst hid
  obtain rfl : Scope.fresh 0 none = scope := Option.some.inj h
  exact ⟨by decide, List.nodup_nil⟩

theorem WellFormed.add {t : ScopeTree} (h : t.WellFormed) {parent : Nat} (hp : parent ≤ t.size)
    (result : Option Ty) : (t.add parent result).WellFormed := by
  intro id scope hs
  rw [get?_add] at hs
  by_cases hid : id = t.size + 1
  · rw [if_pos hid] at hs
    obtain rfl := Option.some.inj hs
    exact ⟨by simp only [Scope.fresh]; omega, List.nodup_nil⟩
  · rw [if_neg hid] at hs
    exact h id scope hs

theorem WellFormed.declare {t t' : ScopeTree} (h : t.WellFormed) {id : Nat} {b : Binding}
    {span : Span} (hd : t.declare id b span = .ok t') : t'.WellFormed := by
  obtain ⟨scope, hs, hb, -, hget⟩ := declare_eq_ok hd
  intro j scope' hj
  rw [hget] at hj
  by_cases hid : j = id
  · rw [if_pos hid] at hj
    obtain rfl := Option.some.inj hj
    obtain ⟨hp, hnodup⟩ := h id scope hs
    refine ⟨by rw [hid]; exact hp, ?_⟩
    rw [List.map_append, List.nodup_append]
    refine ⟨hnodup, by simp, fun x hx y hy => ?_⟩
    obtain ⟨c, hc, rfl⟩ := List.mem_map.mp hx
    obtain rfl : y = b.name := by simpa using hy
    have hnone := List.find?_eq_none.mp hb c hc
    simpa using hnone
  · rw [if_neg hid] at hj
    exact h j scope' hj

/-! ## The way to the root -/

/-- Fuel beyond the number of the scope does not matter: the numbers on the way get smaller. -/
theorem chainFrom_eq_of_le {t : ScopeTree} (h : t.WellFormed) :
    ∀ {fuel fuel' id : Nat}, id ≤ fuel → id ≤ fuel' →
      t.chainFrom fuel id = t.chainFrom fuel' id := by
  intro fuel
  induction fuel with
  | zero =>
    intro fuel' id h₁ _
    obtain rfl : id = 0 := by omega
    cases fuel' with
    | zero => rfl
    | succ n => rfl
  | succ n ih =>
    intro fuel' id h₁ h₂
    cases fuel' with
    | zero =>
      obtain rfl : id = 0 := by omega
      rfl
    | succ n' =>
      simp only [chainFrom]
      cases hs : t.get? id with
      | none => rfl
      | some scope =>
        have hlt := (h id scope hs).1
        simp only
        rw [ih (by omega) (by omega : scope.parent ≤ n')]

theorem chain_eq_cons {t : ScopeTree} (h : t.WellFormed) {id : Nat} {scope : Scope}
    (hs : t.get? id = some scope) : t.chain id = scope :: t.chain scope.parent := by
  have hid := (t.isSome_get?_iff id).mp (by rw [hs]; rfl)
  have hlt := (h id scope hs).1
  obtain ⟨n, hn⟩ : ∃ n, t.size = n + 1 := ⟨t.size - 1, by omega⟩
  have hstep : t.chain id = scope :: t.chainFrom n scope.parent := by
    rw [chain, hn, chainFrom, hs]
  rw [hstep, chain, chainFrom_eq_of_le h (by omega) (by omega : scope.parent ≤ t.size)]

theorem chain_eq_nil {t : ScopeTree} {id : Nat} (hs : t.get? id = none) : t.chain id = [] := by
  unfold chain
  cases t.size with
  | zero => rfl
  | succ n => rw [chainFrom, hs]

/-- The way from a scope to the root depends on the scopes with no larger number only. -/
theorem chain_congr {t t' : ScopeTree} (h : t.WellFormed) (h' : t'.WellFormed) (id : Nat)
    (hget : ∀ j, j ≤ id → t'.get? j = t.get? j) : t'.chain id = t.chain id := by
  induction id using Nat.strongRecOn with
  | ind id ih =>
    cases hs : t.get? id with
    | none => rw [chain_eq_nil hs, chain_eq_nil (by rw [hget id (Nat.le_refl id), hs])]
    | some scope =>
      have hlt := (h id scope hs).1
      rw [chain_eq_cons h hs, chain_eq_cons h' (by rw [hget id (Nat.le_refl id), hs]),
        ih scope.parent hlt fun j hj => hget j (by omega)]

/-- The declarations that can be seen from a scope. -/
def visible (t : ScopeTree) (id : Nat) : Visible :=
  (t.chain id).map fun scope => scope.bindings.reverse

theorem visible_initial : initial.visible globalId = [[]] := rfl

/-- Where no name is declared twice, the order of the declarations does not matter. -/
theorem find?_reverse_of_nodup {bs : List Binding} (h : (bs.map Binding.name).Nodup)
    (name : String) :
    (bs.reverse.find? fun b => b.name = name) = bs.find? fun b => b.name = name := by
  induction bs with
  | nil => rfl
  | cons b bs ih =>
    rw [List.map_cons, List.nodup_cons] at h
    rw [List.reverse_cons, List.find?_append, ih h.2, List.find?_cons]
    by_cases hb : b.name = name
    · have hnone : (bs.find? fun b => b.name = name) = none := by
        rw [List.find?_eq_none]
        intro c hc hcn
        have hcn' : c.name = name := by simpa using hcn
        exact h.1 (List.mem_map.mpr ⟨c, hc, by rw [hcn', hb]⟩)
      rw [hnone]
      simp [hb]
    · simp [hb]

/-- Looking a name up in the tree is looking it up among the visible declarations. -/
theorem lookup?_eq_visible {t : ScopeTree} (h : t.WellFormed) (id : Nat) (name : String) :
    t.lookup? id name = (t.visible id).lookup? name := by
  induction id using Nat.strongRecOn with
  | ind id ih =>
    unfold lookup? visible Visible.lookup?
    cases hs : t.get? id with
    | none => rw [chain_eq_nil hs]; rfl
    | some scope =>
      obtain ⟨hlt, hnodup⟩ := h id scope hs
      have hrest := ih scope.parent hlt
      unfold lookup? visible Visible.lookup? at hrest
      rw [chain_eq_cons h hs, List.map_cons, List.findSome?_cons, List.findSome?_cons,
        find?_reverse_of_nodup hnodup, hrest]
      rfl

/-! ## Growth -/

/-- A tree that grew by whole scopes. -/
structure Extends (t t' : ScopeTree) : Prop where
  wellFormed : t'.WellFormed
  size_le : t.size ≤ t'.size
  get?_eq : ∀ j, j ≤ t.size → t'.get? j = t.get? j

/-- A tree that grew by whole scopes, and by declarations in one scope. -/
structure ExtendsAt (id : Nat) (t t' : ScopeTree) : Prop where
  wellFormed : t'.WellFormed
  size_le : t.size ≤ t'.size
  get?_eq : ∀ j, j ≤ t.size → j ≠ id → t'.get? j = t.get? j
  /-- The scope keeps its place, its result and the declarations that it had. -/
  here : ∀ scope, t.get? id = some scope →
    ∃ added, t'.get? id = some { scope with bindings := scope.bindings ++ added }

theorem Extends.refl {t : ScopeTree} (h : t.WellFormed) : Extends t t :=
  ⟨h, Nat.le_refl _, fun _ _ => rfl⟩

theorem Extends.trans {t t' t'' : ScopeTree} (h : Extends t t') (h' : Extends t' t'') :
    Extends t t'' where
  wellFormed := h'.wellFormed
  size_le := Nat.le_trans h.size_le h'.size_le
  get?_eq := fun j hj => by
    rw [h'.get?_eq j (Nat.le_trans hj h.size_le), h.get?_eq j hj]

theorem Extends.at {t t' : ScopeTree} (h : Extends t t') (id : Nat) : ExtendsAt id t t' where
  wellFormed := h.wellFormed
  size_le := h.size_le
  get?_eq := fun j hj _ => h.get?_eq j hj
  here := fun scope hs => ⟨[], by
    rw [h.get?_eq id (le_size_of_get? hs), hs, List.append_nil]⟩

theorem ExtendsAt.trans {id : Nat} {t t' t'' : ScopeTree} (h : ExtendsAt id t t')
    (h' : ExtendsAt id t' t'') : ExtendsAt id t t'' where
  wellFormed := h'.wellFormed
  size_le := Nat.le_trans h.size_le h'.size_le
  get?_eq := fun j hj hne => by
    rw [h'.get?_eq j (Nat.le_trans hj h.size_le) hne, h.get?_eq j hj hne]
  here := fun scope hs => by
    obtain ⟨added, ha⟩ := h.here scope hs
    obtain ⟨added', ha'⟩ := h'.here _ ha
    exact ⟨added ++ added', by rw [ha', List.append_assoc]⟩

/-- What is declared in a scope that is new does not count as a change of the old ones. -/
theorem ExtendsAt.extends_of_add {t t' : ScopeTree} {parent : Nat} {result : Option Ty}
    (h : ExtendsAt (t.size + 1) (t.add parent result) t') : Extends t t' where
  wellFormed := h.wellFormed
  size_le := by
    have := h.size_le
    rw [size_add] at this
    omega
  get?_eq := fun j hj => by
    rw [h.get?_eq j (by rw [size_add]; omega) (by omega), get?_add, if_neg (by omega)]

theorem extendsAt_declare {t t' : ScopeTree} (h : t.WellFormed) {id : Nat} {b : Binding}
    {span : Span} (hd : t.declare id b span = .ok t') : ExtendsAt id t t' := by
  obtain ⟨scope, hs, -, hsize, hget⟩ := declare_eq_ok hd
  refine ⟨h.declare hd, by omega, fun j _ hne => by rw [hget, if_neg hne], fun scope' hs' => ?_⟩
  obtain rfl : scope = scope' := by rw [hs] at hs'; exact Option.some.inj hs'
  exact ⟨[b], by rw [hget, if_pos rfl]⟩

/-! ## What can be seen while the tree grows -/

theorem visible_eq_cons {t : ScopeTree} (h : t.WellFormed) {id : Nat} {scope : Scope}
    (hs : t.get? id = some scope) :
    t.visible id = scope.bindings.reverse :: t.visible scope.parent := by
  unfold visible
  rw [chain_eq_cons h hs, List.map_cons]

theorem Extends.visible_eq {t t' : ScopeTree} (h : t.WellFormed) (he : Extends t t') {id : Nat}
    (hid : id ≤ t.size) : t'.visible id = t.visible id := by
  unfold visible
  rw [chain_congr h he.wellFormed id fun j hj => he.get?_eq j (Nat.le_trans hj hid)]

theorem Extends.result?_eq {t t' : ScopeTree} (h : t.WellFormed) (he : Extends t t') {id : Nat}
    (hid : id ≤ t.size) : t'.result? id = t.result? id := by
  unfold result?
  rw [chain_congr h he.wellFormed id fun j hj => he.get?_eq j (Nat.le_trans hj hid)]

/-- Declarations do not change the result that is required. -/
theorem ExtendsAt.result?_eq {id : Nat} {t t' : ScopeTree} (h : t.WellFormed)
    (he : ExtendsAt id t t') {scope : Scope} (hs : t.get? id = some scope) :
    t'.result? id = t.result? id := by
  obtain ⟨added, ha⟩ := he.here scope hs
  have hid := le_size_of_get? hs
  have hlt := (h id scope hs).1
  unfold result?
  rw [chain_eq_cons h hs, chain_eq_cons he.wellFormed ha, List.findSome?_cons, List.findSome?_cons,
    chain_congr h he.wellFormed scope.parent fun j hj => he.get?_eq j (by omega) (by omega)]

/-- A declaration is seen first, before all that was seen so far. -/
theorem visible_declare {t t' : ScopeTree} (h : t.WellFormed) {id : Nat} {b : Binding}
    {span : Span} (hd : t.declare id b span = .ok t') :
    ∃ scope outer, t.visible id = scope :: outer ∧ t'.visible id = (b :: scope) :: outer := by
  obtain ⟨scope, hs, -, hsize, hget⟩ := declare_eq_ok hd
  have hlt := (h id scope hs).1
  have hs' : t'.get? id = some { scope with bindings := scope.bindings ++ [b] } := by
    rw [hget, if_pos rfl]
  have houter : t'.visible scope.parent = t.visible scope.parent := by
    unfold visible
    rw [chain_congr h (h.declare hd) scope.parent fun j hj => by rw [hget, if_neg (by omega)]]
  refine ⟨scope.bindings.reverse, t.visible scope.parent, visible_eq_cons h hs, ?_⟩
  rw [visible_eq_cons (h.declare hd) hs']
  simp [houter]

theorem get?_add_new (t : ScopeTree) (parent : Nat) (result : Option Ty) :
    (t.add parent result).get? (t.size + 1) = some (.fresh parent result) := by
  rw [get?_add, if_pos rfl]

theorem extends_add {t : ScopeTree} (h : t.WellFormed) {parent : Nat} (hp : parent ≤ t.size)
    (result : Option Ty) : Extends t (t.add parent result) where
  wellFormed := h.add hp result
  size_le := by rw [size_add]; omega
  get?_eq := fun j hj => by rw [get?_add, if_neg (by omega)]

/-- From a new scope one sees nothing of its own, and then what its parent sees. -/
theorem visible_add {t : ScopeTree} (h : t.WellFormed) {parent : Nat} (hp : parent ≤ t.size)
    (result : Option Ty) :
    (t.add parent result).visible (t.size + 1) = [] :: t.visible parent := by
  have hwf := h.add hp result
  rw [visible_eq_cons hwf (get?_add_new t parent result)]
  simp only [Scope.fresh, List.reverse_nil]
  rw [(extends_add h hp result).visible_eq h hp]

theorem result?_add {t : ScopeTree} (h : t.WellFormed) {parent : Nat} (hp : parent ≤ t.size)
    (result : Option Ty) :
    (t.add parent result).result? (t.size + 1) = result.or (t.result? parent) := by
  have hwf := h.add hp result
  have hrest := (extends_add h hp result).result?_eq h hp
  unfold result? at hrest ⊢
  rw [chain_eq_cons hwf (get?_add_new t parent result), List.findSome?_cons]
  simp only [Scope.fresh]
  cases result with
  | none => exact hrest
  | some r => rfl

end ScopeTree

end TypedImp
