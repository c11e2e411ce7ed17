import TypedImp.Frame

/-!
# Frames by their numbers

A stack of frames is used through three things only: the number of the active frame, the variables
of a frame, and the frame in which a search goes on.  Each operation is described by what it does to
these three, and the proofs about running programs need nothing else.

* `FrameStack.bindings?_push`, `FrameStack.bindings?_pop`, `FrameStack.bindings?_modify` and their
  companions: pushing, popping and changing frames.
* `FrameStack.WellFormed`: searches go on in frames with smaller numbers.
* `FrameStack.frameFrom?`: the search for a name, one frame after the other.
-/

namespace TypedImp

namespace FrameStack

/-! ## Pushing, popping, changing -/

@[simp] theorem active_push (s : FrameStack) (parent : Nat) :
    (s.push parent).active = s.active + 1 := by
  simp [push, active]

theorem active_pop {s : FrameStack} : s.pop.active = max 1 (s.active - 1) := by
  simp only [pop, active, Array.size_pop]
  omega

@[simp] theorem active_modify (s : FrameStack) (change : Bindings → Bindings) (id : Nat) :
    (s.modify change id).active = s.active := by
  match id with
  | 0 => rfl
  | 1 => rfl
  | n + 2 => simp [modify, active]

theorem one_le_active (s : FrameStack) : 1 ≤ s.active := Nat.le_add_left 1 _

/-- The frames are numbered from one up to the active one. -/
theorem isSome_bindings?_iff (s : FrameStack) (id : Nat) :
    (s.bindings? id).isSome = true ↔ 1 ≤ id ∧ id ≤ s.active := by
  match id with
  | 0 => simp [bindings?]
  | 1 => simp [bindings?, active]
  | n + 2 =>
    simp only [bindings?, active]
    rw [Option.isSome_map, isSome_getElem?]
    omega

theorem bindings?_of_active_lt {s : FrameStack} {id : Nat} (h : s.active < id) :
    s.bindings? id = none := by
  rw [← Option.not_isSome_iff_eq_none, isSome_bindings?_iff]
  omega

theorem parent_of_active_lt {s : FrameStack} {id : Nat} (h : s.active < id) : s.parent id = 0 := by
  match id with
  | 0 => rfl
  | 1 => rfl
  | n + 2 =>
    have hactive : s.active = s.locals.size + 1 := rfl
    rw [FrameStack.parent, Array.getElem?_eq_none (by omega)]
    rfl

theorem exists_bindings? {s : FrameStack} {id : Nat} (hone : 1 ≤ id) (hactive : id ≤ s.active) :
    ∃ bs, s.bindings? id = some bs :=
  Option.isSome_iff_exists.mp ((s.isSome_bindings?_iff id).mpr ⟨hone, hactive⟩)

theorem bindings?_push (s : FrameStack) (parent id : Nat) :
    (s.push parent).bindings? id = if id = s.active + 1 then some [] else s.bindings? id := by
  match id with
  | 0 => simp [bindings?]
  | 1 =>
    have := s.one_le_active
    rw [if_neg (by omega)]
    rfl
  | n + 2 =>
    have hactive : s.active = s.locals.size + 1 := rfl
    simp only [bindings?, push, Array.getElem?_push]
    by_cases h : n = s.locals.size
    · rw [if_pos h, if_pos (by omega)]
      rfl
    · rw [if_neg h, if_neg (by omega)]

theorem parent_push (s : FrameStack) (parent id : Nat) :
    (s.push parent).parent id = if id = s.active + 1 then parent else s.parent id := by
  match id with
  | 0 => simp [FrameStack.parent]
  | 1 =>
    have := s.one_le_active
    rw [if_neg (by omega)]
    rfl
  | n + 2 =>
    have hactive : s.active = s.locals.size + 1 := rfl
    simp only [FrameStack.parent, push, Array.getElem?_push]
    by_cases h : n = s.locals.size
    · rw [if_pos h, if_pos (by omega)]
      rfl
    · rw [if_neg h, if_neg (by omega)]

/-- What is left after popping was there before. -/
theorem bindings?_of_pop {s : FrameStack} {id : Nat} {bs : Bindings}
    (h : s.pop.bindings? id = some bs) : s.bindings? id = some bs := by
  match id with
  | 0 => exact h
  | 1 => exact h
  | n + 2 =>
    simp only [bindings?, pop, Array.getElem?_pop] at h ⊢
    split at h
    · exact h
    · cases h

/-- Frames that are still there after popping are as they were. -/
theorem bindings?_pop {s : FrameStack} {id : Nat} (h : id ≤ s.pop.active) :
    s.pop.bindings? id = s.bindings? id := by
  cases id with
  | zero => rfl
  | succ n =>
    obtain ⟨bs, hbs⟩ := exists_bindings? (Nat.succ_pos n) h
    rw [hbs, bindings?_of_pop hbs]

theorem parent_pop {s : FrameStack} {id : Nat} (h : id < s.active) :
    s.pop.parent id = s.parent id := by
  match id with
  | 0 => rfl
  | 1 => rfl
  | n + 2 =>
    have hactive : s.active = s.locals.size + 1 := rfl
    simp only [FrameStack.parent, pop, Array.getElem?_pop]
    rw [if_pos (by omega)]

theorem bindings?_modify (s : FrameStack) (change : Bindings → Bindings) (id j : Nat) :
    (s.modify change id).bindings? j =
      if j = id then (s.bindings? j).map change else s.bindings? j := by
  match id, j with
  | 0, 0 => rfl
  | 0, j + 1 => rw [if_neg (by omega)]; rfl
  | 1, 0 => rfl
  | 1, 1 => rfl
  | 1, j + 2 => rw [if_neg (by omega)]; rfl
  | n + 2, 0 => rfl
  | n + 2, 1 => rw [if_neg (by omega)]; rfl
  | n + 2, j + 2 =>
    simp only [bindings?, modify, Array.getElem?_modify]
    by_cases h : n = j
    · rw [if_pos h, if_pos (by omega), Option.map_map, Option.map_map]
      rfl
    · rw [if_neg h, if_neg (by omega)]

/-- What a change keeps about the variables of one frame, it keeps about those of all frames. -/
theorem map_bindings?_modify {α : Type} (s : FrameStack) {change : Bindings → Bindings}
    {f : Bindings → α} (hf : ∀ b, f (change b) = f b) (id j : Nat) :
    ((s.modify change id).bindings? j).map f = (s.bindings? j).map f := by
  rw [bindings?_modify]
  by_cases hj : j = id
  · rw [if_pos hj, Option.map_map]
    exact congrArg (Option.map · (s.bindings? j)) (funext hf)
  · rw [if_neg hj]

@[simp] theorem parent_modify (s : FrameStack) (change : Bindings → Bindings) (id j : Nat) :
    (s.modify change id).parent j = s.parent j := by
  match id, j with
  | 0, _ => rfl
  | 1, 0 => rfl
  | 1, 1 => rfl
  | 1, j + 2 => rfl
  | n + 2, 0 => rfl
  | n + 2, 1 => rfl
  | n + 2, j + 2 =>
    simp only [FrameStack.parent, modify, Array.getElem?_modify]
    by_cases h : n = j
    · rw [if_pos h, Option.map_map]
      rfl
    · rw [if_neg h]

/-! ## Well-formed stacks -/

/-- From every frame the search for a name goes on in one with a smaller number. -/
def WellFormed (s : FrameStack) : Prop := ∀ id, 1 ≤ id → s.parent id < id

theorem wellFormed_initial : initial.WellFormed := by
  intro id hid
  match id with
  | 1 => decide
  | n + 2 => exact Nat.succ_pos _

theorem WellFormed.push {s : FrameStack} (h : s.WellFormed) {parent : Nat}
    (hp : parent ≤ s.active) : (s.push parent).WellFormed := by
  intro id hid
  rw [parent_push]
  split
  · omega
  · exact h id hid

theorem WellFormed.pop {s : FrameStack} (h : s.WellFormed) : s.pop.WellFormed := by
  intro id hid
  by_cases hlt : id < s.active
  · rw [parent_pop hlt]
    exact h id hid
  · match id with
    | 1 => exact Nat.zero_lt_one
    | n + 2 =>
      have hactive : s.active = s.locals.size + 1 := rfl
      simp only [FrameStack.parent, FrameStack.pop, Array.getElem?_pop]
      rw [if_neg (by omega)]
      exact Nat.succ_pos _

theorem WellFormed.modify {s : FrameStack} (h : s.WellFormed) (change : Bindings → Bindings)
    (id : Nat) : (s.modify change id).WellFormed := by
  intro j hj
  rw [parent_modify]
  exact h j hj

theorem WellFormed.set? {s s' : FrameStack} (h : s.WellFormed) {name : String} {value : Value}
    (hset : s.set? name value = some s') : s'.WellFormed := by
  obtain ⟨id, -, rfl⟩ := Option.map_eq_some_iff.mp hset
  exact h.modify _ id

/-! ## The search for a name -/

/-- Fuel beyond the number of the frame does not matter. -/
theorem chainFrom_eq_of_le {s : FrameStack} (h : s.WellFormed) :
    ∀ {fuel fuel' id : Nat}, id ≤ fuel → id ≤ fuel' →
      s.chainFrom fuel id = s.chainFrom fuel' id := by
  intro fuel
  induction fuel with
  | zero =>
    intro fuel' id h₁ _
    obtain rfl : id = 0 := by omega
    cases fuel' with
    | zero => rfl
    | succ n => rfl
  | succ n ih =>
    intro fuel' id h₁ h₂
    match id, fuel' with
    | 0, 0 => rfl
    | 0, n' + 1 => rfl
    | id + 1, n' + 1 =>
      have hlt := h (id + 1) (by omega)
      simp only [chainFrom]
      rw [ih (by omega) (by omega : s.parent (id + 1) ≤ n')]

/-- Searches depend on how many frames there are, and on their parents. -/
theorem chainFrom_congr {s s' : FrameStack} (hactive : s'.active = s.active)
    (hparent : ∀ id, s'.parent id = s.parent id) (fuel id : Nat) :
    s'.chainFrom fuel id = s.chainFrom fuel id := by
  induction fuel generalizing id with
  | zero => rfl
  | succ fuel ih =>
    have hsame : (s'.bindings? id).isSome = (s.bindings? id).isSome := by
      rw [Bool.eq_iff_iff, isSome_bindings?_iff, isSome_bindings?_iff, hactive]
    simp only [chainFrom, hparent, ih]
    cases hs : s.bindings? id with
    | none =>
      have hnone : s'.bindings? id = none := by
        rw [← Option.not_isSome_iff_eq_none, hsame, hs]
        exact Bool.false_ne_true
      rw [hnone]
    | some b =>
      obtain ⟨b', hb'⟩ := Option.isSome_iff_exists.mp (hsame.trans (by rw [hs]; rfl))
      rw [hb']

theorem chain_congr {s s' : FrameStack} (hactive : s'.active = s.active)
    (hparent : ∀ id, s'.parent id = s.parent id) : s'.chain = s.chain := by
  have hdepth : s'.depth = s.depth := congrArg (· + 1) hactive
  rw [chain, chain, hdepth, hactive]
  exact chainFrom_congr hactive hparent s.depth s.active

theorem chain_modify (s : FrameStack) (change : Bindings → Bindings) (id : Nat) :
    (s.modify change id).chain = s.chain :=
  chain_congr (s.active_modify change id) (s.parent_modify change id)

/-- A frame that is pushed is not found from those below. -/
theorem chainFrom_push {s : FrameStack} (h : s.WellFormed) (parent fuel : Nat) {id : Nat}
    (hid : id ≤ s.active) : (s.push parent).chainFrom fuel id = s.chainFrom fuel id := by
  induction fuel generalizing id with
  | zero => rfl
  | succ fuel ih =>
    simp only [chainFrom]
    rw [bindings?_push, parent_push, if_neg (by omega), if_neg (by omega)]
    cases hb : s.bindings? id with
    | none => rfl
    | some b =>
      have hone := ((s.isSome_bindings?_iff id).mp (by rw [hb]; rfl)).1
      have hlt := h id hone
      dsimp only
      rw [ih (by omega)]

theorem chain_push (s : FrameStack) (parent : Nat) :
    (s.push parent).chain = (s.active + 1) :: (s.push parent).chainFrom s.depth parent := by
  have hdepth : (s.push parent).depth = s.depth + 1 := by simp [depth, push]
  rw [chain, hdepth, active_push, chainFrom, bindings?_push, parent_push, if_pos rfl, if_pos rfl]

/-- The first frame that is searched is the active one. -/
theorem chain_eq_cons (s : FrameStack) :
    s.chain = s.active :: s.chainFrom s.active (s.parent s.active) := by
  obtain ⟨b, hb⟩ := exists_bindings? s.one_le_active (Nat.le_refl s.active)
  rw [chain, depth, chainFrom, hb]
  rfl

theorem active_mem_chain (s : FrameStack) : s.active ∈ s.chain := by
  rw [chain_eq_cons]
  exact List.mem_cons_self

/-- A frame in which a name is found has a variable of that name. -/
theorem bindings?_of_frameOf? {s : FrameStack} {name : String} {id : Nat}
    (h : s.frameOf? name = some id) : ∃ bs, s.bindings? id = some bs ∧ bs.binds name = true := by
  have hin : s.bindsIn name id = true := List.find?_some h
  unfold bindsIn at hin
  cases hb : s.bindings? id with
  | none => rw [hb] at hin; cases hin
  | some bs => rw [hb] at hin; exact ⟨bs, rfl, hin⟩

/-- The nearest frame with a variable of a name, searched from a frame on. -/
def frameFrom? (s : FrameStack) (name : String) (id : Nat) : Option Nat :=
  (s.chainFrom id id).find? (s.bindsIn name)

theorem frameOf?_eq_frameFrom? {s : FrameStack} (h : s.WellFormed) (name : String) :
    s.frameOf? name = s.frameFrom? name s.active := by
  unfold frameOf? frameFrom? chain
  rw [chainFrom_eq_of_le h (by simp only [depth, active]; omega) (Nat.le_refl s.active)]

theorem frameFrom?_of_bound {s : FrameStack} {name : String} {id : Nat} {b : Bindings}
    (hb : s.bindings? id = some b) (hbound : b.binds name = true) :
    s.frameFrom? name id = some id := by
  obtain ⟨n, rfl⟩ : ∃ n, id = n + 1 :=
    ⟨id - 1, by have := (s.isSome_bindings?_iff id).mp (by rw [hb]; rfl); omega⟩
  have hin : s.bindsIn name (n + 1) = true := by rw [bindsIn, hb]; exact hbound
  simp only [frameFrom?, chainFrom, hb]
  rw [List.find?_cons_of_pos hin]

theorem frameFrom?_of_unbound {s : FrameStack} (h : s.WellFormed) {name : String} {id : Nat}
    {b : Bindings} (hb : s.bindings? id = some b) (hbound : b.binds name = false) :
    s.frameFrom? name id = s.frameFrom? name (s.parent id) := by
  have hid := ((s.isSome_bindings?_iff id).mp (by rw [hb]; rfl)).1
  obtain ⟨n, rfl⟩ : ∃ n, id = n + 1 := ⟨id - 1, by omega⟩
  have hlt := h (n + 1) hid
  have hin : ¬ s.bindsIn name (n + 1) = true := by rw [bindsIn, hb]; simp [hbound]
  simp only [frameFrom?, chainFrom, hb]
  rw [List.find?_cons_of_neg hin, chainFrom_eq_of_le h (by omega) (Nat.le_refl _)]

theorem frameFrom?_zero (s : FrameStack) (name : String) : s.frameFrom? name 0 = none := rfl

end FrameStack

end TypedImp
