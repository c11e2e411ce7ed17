import TypedImp.Proofs.Execution.History

/-!
# How frames are laid out

Typing rules speak of scopes inside scopes, a running program of frames on a stack.  Between the two
stands the layout of a stack: how many frames there are, where a search goes on from each, and what
has been declared for it.  Values are left out, so evaluating an expression does not change the
layout at all, and a statement changes it only by what it declares.

## Globals that are still to come

Functions see all globals, but they can be called while the globals are only being made.  So what a
function sees in the outermost scope is the declarations of the outermost frame and, before them,
some that are pending: later in the source, and without a variable yet.  Looking a name up finds
either the variable of the declaration that the rules found, or nothing, and then the name is that
of a pending global.

* `Layout`, `Layout.Describes`: layouts, and the moments that have them.
* `Layout.Grows`: declarations added to the active frame.
* `Layout.Sees`: the scopes that are seen from a frame.
* `Layout.Sees.declarationOf?_eq`: what a name means in the scopes is what it means in the frames.
-/

namespace TypedImp

/-- How the frames of a moment are laid out, without the values in them. -/
structure Layout where
  /-- The number of the active frame. -/
  active : Nat
  /-- The frame in which the search for a name goes on. -/
  parent : Nat → Nat
  /-- What has been declared for a frame, the latest first. -/
  declared : Nat → List Binding

namespace Layout

/-- Nothing but an empty frame of globals. -/
def initial : Layout := ⟨1, fun _ => 0, fun _ => []⟩

/-- A new frame on top of the others. -/
def push (L : Layout) (parent : Nat) : Layout where
  active := L.active + 1
  parent := fun id => if id = L.active + 1 then parent else L.parent id
  declared := fun id => if id = L.active + 1 then [] else L.declared id

/-- A declaration for the active frame. -/
def declare (L : Layout) (b : Binding) : Layout :=
  { L with declared := fun id => if id = L.active then b :: L.declared id else L.declared id }

theorem declared_push_active (L : Layout) (parent : Nat) :
    (L.push parent).declared (L.active + 1) = [] := if_pos rfl

theorem declared_declare_active (L : Layout) (b : Binding) :
    (L.declare b).declared L.active = b :: L.declared L.active := if_pos rfl

/-- The second layout has more declarations for the active frame, and is the first one otherwise. -/
structure Grows (L L' : Layout) : Prop where
  active_eq : L'.active = L.active
  parent_eq : ∀ id, L'.parent id = L.parent id
  declared_eq : ∀ id, id ≠ L.active → L'.declared id = L.declared id

theorem Grows.refl (L : Layout) : L.Grows L := ⟨rfl, fun _ => rfl, fun _ _ => rfl⟩

theorem Grows.trans {L L' L'' : Layout} (h : L.Grows L') (h' : L'.Grows L'') : L.Grows L'' where
  active_eq := h'.active_eq.trans h.active_eq
  parent_eq := fun id => (h'.parent_eq id).trans (h.parent_eq id)
  declared_eq := fun id hid =>
    (h'.declared_eq id (by rw [h.active_eq]; exact hid)).trans (h.declared_eq id hid)

theorem Grows.le_active {L L' : Layout} {n : Nat} (h : L.Grows L') (hn : n ≤ L.active) :
    n ≤ L'.active := by
  rw [h.active_eq]
  exact hn

theorem grows_declare (L : Layout) (b : Binding) : L.Grows (L.declare b) where
  active_eq := rfl
  parent_eq := fun _ => rfl
  declared_eq := fun _ hid => if_neg hid

/-! ## Moments with a layout -/

/-- A moment whose frames are laid out in the given way. -/
structure Describes (L : Layout) (s : Snapshot) : Prop where
  active_eq : s.frames.active = L.active
  parent_eq : ∀ id ≤ L.active, s.frames.parent id = L.parent id
  declared_eq : ∀ id ≤ L.active, s.declared id = L.declared id

theorem describes_initial : initial.Describes .initial where
  active_eq := rfl
  parent_eq := fun id hid => by
    match id with
    | 0 => rfl
    | 1 => rfl
    | n + 2 => exact absurd (show n + 2 ≤ 1 from hid) (by omega)
  declared_eq := fun _ _ => rfl

namespace Describes

variable {L : Layout} {s : Snapshot}

theorem push (h : L.Describes s) (parent : Nat) : (L.push parent).Describes (s.push parent) where
  active_eq := by
    rw [Snapshot.push, FrameStack.active_push, h.active_eq]
    rfl
  parent_eq := fun id hid => by
    simp only [Snapshot.push, Layout.push, FrameStack.parent_push, h.active_eq] at hid ⊢
    by_cases hnew : id = L.active + 1
    · rw [if_pos hnew, if_pos hnew]
    · rw [if_neg hnew, if_neg hnew]
      exact h.parent_eq id (by omega)
  declared_eq := fun id hid => by
    simp only [Snapshot.push, Layout.push, h.active_eq] at hid ⊢
    by_cases hnew : id = L.active + 1
    · rw [if_pos hnew, if_pos hnew]
    · rw [if_neg hnew, if_neg hnew]
      exact h.declared_eq id (by omega)

/-- After leaving a frame the layout is the one before entering it, whatever was declared in
between. -/
theorem pop {L' : Layout} {parent : Nat} (h : L'.Describes s) (hgrows : (L.push parent).Grows L')
    (hactive : 1 ≤ L.active) : L.Describes s.pop := by
  have htop : s.frames.active = L.active + 1 := h.active_eq.trans hgrows.active_eq
  have hle : ∀ id ≤ L.active, id ≤ L'.active := fun id hid => by
    rw [← h.active_eq, htop]
    omega
  refine ⟨?_, fun id hid => ?_, fun id hid => ?_⟩
  · rw [Snapshot.pop, FrameStack.active_pop, htop]
    omega
  · rw [Snapshot.pop, FrameStack.parent_pop (by omega), h.parent_eq id (hle id hid),
      hgrows.parent_eq]
    exact if_neg (by omega)
  · rw [Snapshot.pop, h.declared_eq id (hle id hid),
      hgrows.declared_eq id (by simp only [Layout.push]; omega)]
    exact if_neg (by omega)

theorem bind (h : L.Describes s) (declaration : Binding) (value : Value) :
    (L.declare declaration).Describes (s.bind declaration value) where
  active_eq := by
    rw [Snapshot.bind, FrameStack.bind, FrameStack.active_modify]
    exact h.active_eq
  parent_eq := fun id hid => by
    rw [Snapshot.bind, FrameStack.bind, FrameStack.parent_modify]
    exact h.parent_eq id hid
  declared_eq := fun id hid => by
    simp only [Snapshot.bind, Layout.declare, h.active_eq] at hid ⊢
    rw [h.declared_eq id hid]

theorem set (h : L.Describes s) {name : String} {value : Value} {id : Nat}
    (hset : s.frames.set? name value = some (s.frames.modify (Bindings.set name value) id)) :
    L.Describes (s.set name value) := by
  have hframes : (s.set name value).frames = s.frames.modify (Bindings.set name value) id := by
    rw [Snapshot.set, hset, Option.getD_some]
  refine ⟨?_, fun j hj => ?_, h.declared_eq⟩
  · rw [hframes, FrameStack.active_modify, h.active_eq]
  · rw [hframes, FrameStack.parent_modify, h.parent_eq j hj]

end Describes

/-! ## Scopes and frames -/

/-- The scopes that are seen from a frame.  The outermost one may hold declarations without a
variable, the pending ones. -/
inductive Sees (L : Layout) (pending : List Binding) : Nat → Visible → Prop
  | globals : Sees L pending FrameStack.globalId [pending ++ L.declared FrameStack.globalId]
  | frame {id : Nat} {outer : Visible} (lower : L.parent id < id)
    (outer_seen : Sees L pending (L.parent id) outer) :
    Sees L pending id (L.declared id :: outer)

namespace Sees

variable {L L' : Layout} {pending : List Binding} {id : Nat} {env : Visible}

theorem one_le (h : L.Sees pending id env) : 1 ≤ id := by
  cases h with
  | globals => exact Nat.le_refl 1
  | frame lower _ => omega

/-- Only the frames up to the one that is looked from matter. -/
theorem congr (h : L.Sees pending id env) (hparent : ∀ k ≤ id, L'.parent k = L.parent k)
    (hdeclared : ∀ k ≤ id, L'.declared k = L.declared k) : L'.Sees pending id env := by
  induction h with
  | globals =>
    rw [← hdeclared _ (Nat.le_refl _)]
    exact .globals
  | @frame id outer lower _ ih =>
    have hp := hparent id (Nat.le_refl _)
    rw [← hdeclared _ (Nat.le_refl _)]
    refine .frame (by rw [hp]; exact lower) ?_
    rw [hp]
    exact ih (fun k hk => hparent k (by omega)) (fun k hk => hdeclared k (by omega))

/-- A new frame sees what is declared for it and what its parent sees. -/
theorem push {parent : Nat} (h : L.Sees pending parent env) (hle : parent ≤ L.active) :
    (L.push parent).Sees pending (L.active + 1) ([] :: env) := by
  have hparent : (L.push parent).parent (L.active + 1) = parent := if_pos rfl
  rw [← declared_push_active L parent]
  refine .frame (by rw [hparent]; omega) ?_
  rw [hparent]
  exact h.congr (fun k hk => if_neg (by omega)) (fun k hk => if_neg (by omega))

/-- Declarations for the active frame go to the nearest scope. -/
theorem grow {scope scope' : List Binding} {outer : Visible}
    (h : L.Sees pending L.active (scope :: outer)) (hactive : 2 ≤ L.active) (hgrows : L.Grows L')
    (hscope : L'.declared L.active = scope') : L'.Sees pending L'.active (scope' :: outer) := by
  rw [hgrows.active_eq, ← hscope]
  generalize hid : L.active = id at *
  cases h with
  | globals => exact absurd hactive (by decide)
  | frame lower outer_seen =>
    refine .frame (by rw [hgrows.parent_eq]; exact lower) ?_
    rw [hgrows.parent_eq]
    refine outer_seen.congr (fun k _ => hgrows.parent_eq k) fun k hk => ?_
    exact hgrows.declared_eq k (by omega)

/-- The scope of the frame from which one looks is what is declared for it. -/
theorem head_eq {scope : List Binding} {outer : Visible} (h : L.Sees pending id (scope :: outer))
    (hid : 2 ≤ id) : L.declared id = scope := by
  cases h with
  | globals => exact absurd hid (by decide)
  | frame _ _ => rfl

end Sees

section Lookup

variable {L : Layout} {s : Snapshot} {pending : List Binding} {name : String} {b : Binding}

/-- In the outermost scope a name means a variable, or a pending global if there is none. -/
theorem find?_globals {bound : List Binding}
    (distinct : ((pending ++ bound).map Binding.name).Nodup)
    (seen : (pending ++ bound).find? (fun d => d.name = name) = some b) :
    bound.find? (fun d => d.name = name) = some b ∨
      bound.find? (fun d => d.name = name) = none ∧ name ∈ pending.map Binding.name := by
  rw [List.find?_append] at seen
  have hname : ∀ {ds : List Binding} {d : Binding},
      ds.find? (fun d => d.name = name) = some d → name ∈ ds.map Binding.name := by
    intro ds d hd
    have heq : d.name = name := by simpa using List.find?_some hd
    exact heq ▸ List.mem_map_of_mem (List.mem_of_find?_eq_some hd)
  cases hpending : pending.find? (fun d => d.name = name) with
  | none =>
    rw [hpending, Option.none_or] at seen
    exact Or.inl seen
  | some d =>
    refine Or.inr ⟨?_, hname hpending⟩
    -- a global with a variable cannot share its name with a pending one
    rw [List.map_append] at distinct
    cases hbound : bound.find? (fun d => d.name = name) with
    | none => rfl
    | some d' =>
      exact absurd (hname hbound) (List.disjoint_of_nodup_append distinct (hname hpending))

/-- The search from a frame ends at the variable of the declaration that is seen, or finds nothing
for the name of a pending global. -/
theorem Sees.frameFrom?_eq (hdescribes : L.Describes s) (sound : s.Sound)
    (distinct : ((pending ++ L.declared FrameStack.globalId).map Binding.name).Nodup) {id : Nat}
    {env : Visible} (h : L.Sees pending id env) (hid : id ≤ L.active)
    (seen : env.lookup? name = some b) :
    (∃ k, s.frames.frameFrom? name id = some k ∧
        (s.declared k).find? (fun d => d.name = name) = some b) ∨
      s.frames.frameFrom? name id = none ∧ name ∈ pending.map Binding.name := by
  -- the variables of a frame on the way, and whether the name is among them
  have hframe : ∀ k, 1 ≤ k → k ≤ L.active → ∃ bs, s.frames.bindings? k = some bs ∧
      bs.binds name = ((L.declared k).find? fun d => d.name = name).isSome := by
    intro k hone hk
    have hframe : k ≤ s.frames.active := by
      rw [hdescribes.active_eq]
      exact hk
    obtain ⟨bs, hbs⟩ := FrameStack.exists_bindings? hone hframe
    refine ⟨bs, hbs, ?_⟩
    rw [← hdescribes.declared_eq k hk]
    exact Bindings.binds_eq_of_holds (sound.holds k bs hbs) name
  induction h with
  | globals =>
    obtain ⟨bs, hbs, hbinds⟩ := hframe FrameStack.globalId (Nat.le_refl 1) hid
    have hseen : (pending ++ L.declared FrameStack.globalId).find? (fun d => d.name = name) =
        some b := by
      simpa [Visible.lookup?] using seen
    rcases find?_globals distinct hseen with hfind | ⟨hfind, hpending⟩
    · refine Or.inl ⟨_, FrameStack.frameFrom?_of_bound hbs (by rw [hbinds, hfind]; rfl), ?_⟩
      rw [hdescribes.declared_eq _ hid, hfind]
    · refine Or.inr ⟨?_, hpending⟩
      rw [FrameStack.frameFrom?_of_unbound sound.wellFormed hbs (by rw [hbinds, hfind]; rfl)]
      exact FrameStack.frameFrom?_zero s.frames name
  | @frame id outer lower outer_seen ih =>
    obtain ⟨bs, hbs, hbinds⟩ := hframe id (by omega) hid
    unfold Visible.lookup? at seen ih
    rw [List.findSome?_cons] at seen
    cases hfind : (L.declared id).find? (fun d => d.name = name) with
    | some d =>
      rw [hfind] at seen hbinds
      refine Or.inl ⟨id, FrameStack.frameFrom?_of_bound hbs hbinds, ?_⟩
      rw [hdescribes.declared_eq id hid, hfind]
      exact seen
    | none =>
      rw [hfind] at seen hbinds
      rw [FrameStack.frameFrom?_of_unbound sound.wellFormed hbs hbinds, hdescribes.parent_eq id hid]
      exact ih (by omega) seen

/-- **What a name means in the scopes is what it means in the frames**, unless it is the name of a
global that is still to come. -/
theorem Sees.declarationOf?_eq (hdescribes : L.Describes s) (sound : s.Sound)
    (distinct : ((pending ++ L.declared FrameStack.globalId).map Binding.name).Nodup)
    {env : Visible} (h : L.Sees pending L.active env) (seen : env.lookup? name = some b) :
    s.declarationOf? name = some b ∨
      s.frames.frameOf? name = none ∧ name ∈ pending.map Binding.name := by
  rw [Snapshot.declarationOf?, FrameStack.frameOf?_eq_frameFrom? sound.wellFormed,
    hdescribes.active_eq]
  rcases h.frameFrom?_eq hdescribes sound distinct (Nat.le_refl _) seen with ⟨k, hk, hfind⟩ | hnone
  · left
    rw [hk, Option.bind_some, hfind]
  · exact Or.inr hnone

end Lookup

end Layout

end TypedImp
