import Mathlib.Data.List.Induction
import Mathlib.Data.Nat.PSub
import TypedImp.Proofs.Execution.Events
import TypedImp.Proofs.Execution.Frames

/-!
# Frames in a vector

In memory the frames are one vector.  Index zero holds a frame that is never used, index one that of
the globals, and the last index is that of the active frame.  Variables are found by index too: the
index of a frame and the index of a variable in it.  Every access by index may miss its vector.
Here it is shown that none does, whatever happens to the frames, and that what is done to the vector
is what is done to the stack of frames.

## Events

Frames change only by events, so the vectors that a run goes through are those that one gets by
replaying some of its events.  A search for a name follows the parents of frames; it comes to an end
because a parent always stands further down.

* `FrameVector`, `FrameVector.bind?`, `FrameVector.get?`, `FrameVector.set?`: frames in a vector,
  with their failures.
* `FrameStack.vector`: the vector of a stack.
* `FrameVector.replay?`, `replay?_eq`: **no access fails after any events**.
-/

namespace TypedImp

/-- Frames in a vector.  The variables of a frame stand in the order in which they were made. -/
abbrev FrameVector := List Frame

namespace FrameVector

/-- The vector with only the unused frame and that of the globals. -/
def new : FrameVector := [⟨0, []⟩, ⟨0, []⟩]

/-- Drops all frames but the first two and empties the second. -/
def reset? (v : FrameVector) : Option FrameVector := do
  let v := v.take 2
  let frame ← v[FrameStack.globalId]?
  return v.set FrameStack.globalId { frame with bindings := [] }

/-- The index of the active frame. -/
def active? (v : FrameVector) : Option Nat := v.length.ppred

/-- Pushes a frame without variables and answers its index. -/
def push? (v : FrameVector) (parent : Nat) : Option (Nat × FrameVector) := do
  let v : FrameVector := v ++ [⟨parent, []⟩]
  return (← v.active?, v)

/-- Pops the active frame, but none of the first two. -/
def pop (v : FrameVector) : FrameVector := if 2 < v.length then v.dropLast else v

/-- Adds a variable to the active frame. -/
def bind? (v : FrameVector) (name : String) (value : Value) : Option FrameVector := do
  let id ← v.active?
  let frame ← v[id]?
  return v.set id { frame with bindings := frame.bindings ++ [(name, value)] }

/-- The index of the last variable of a name. -/
def lastIndex? (name : String) : Bindings → Option Nat
  | [] => none
  | entry :: b =>
    match lastIndex? name b with
    | some index => some (index + 1)
    | none => if entry.1 = name then some 0 else none

/-- Searches the frames for a variable of a name, from one frame on.  The answer is the index of the
frame and of the variable in it.  There is none if the search does not end in `fuel` steps. -/
def findFrom? (v : FrameVector) (name : String) : (fuel : Nat) → (id : Nat) →
    Option (Option (Nat × Nat))
  | 0, _ => none
  | fuel + 1, id =>
    if id = 0 then some none
    else
      match v[id]? with
      | none => some none
      | some frame =>
        match lastIndex? name frame.bindings with
        | some index => some (some (id, index))
        | none => findFrom? v name fuel frame.parent

/-- Searches the frames from the active one on. -/
def find? (v : FrameVector) (name : String) : Option (Option (Nat × Nat)) := do
  v.findFrom? name v.length (← v.active?)

/-- The value of the nearest variable of a name, if there is one. -/
def get? (v : FrameVector) (name : String) : Option (Option Value) := do
  match ← v.find? name with
  | none => return none
  | some (id, index) =>
    let frame ← v[id]?
    let entry ← frame.bindings[index]?
    return some entry.2

/-- Gives the nearest variable of a name a new value, if there is one. -/
def set? (v : FrameVector) (name : String) (value : Value) : Option (Option FrameVector) := do
  match ← v.find? name with
  | none => return none
  | some (id, index) =>
    let frame ← v[id]?
    let entry ← frame.bindings[index]?
    return some (v.set id { frame with bindings := List.set frame.bindings index (entry.1, value) })

/-- What an event makes of a vector. -/
def perform? (v : FrameVector) : Event → Option FrameVector
  | .call _ _ => do return (← v.push? FrameStack.globalId).2
  | .block => do return (← v.push? (← v.active?)).2
  | .leave => some v.pop
  | .bind declaration value => v.bind? declaration.name value
  | .set name value => do return (← v.set? name value).getD v

/-- The vector after some events. -/
def replay? (events : List Event) : Option FrameVector := events.foldlM perform? new

end FrameVector

namespace Frame

/-- A frame with its variables in the order in which they were made. -/
def inOrder (f : Frame) : Frame := f.modify List.reverse

end Frame

namespace FrameStack

/-- The frames of a stack as a vector. -/
def vector (s : FrameStack) : FrameVector :=
  ⟨0, []⟩ :: ⟨0, s.globals.reverse⟩ :: s.locals.toList.map Frame.inOrder

theorem length_vector (s : FrameStack) : s.vector.length = s.active + 1 := by
  simp [vector, active]

theorem active?_vector (s : FrameStack) : s.vector.active? = some s.active := by
  rw [FrameVector.active?, length_vector, Nat.ppred_succ]

theorem getElem?_vector (s : FrameStack) {id : Nat} (h : 1 ≤ id) :
    s.vector[id]? = (s.bindings? id).map fun b => ⟨s.parent id, b.reverse⟩ := by
  match id with
  | 1 => rfl
  | n + 2 =>
    rw [vector, List.getElem?_cons_succ, List.getElem?_cons_succ, List.getElem?_map,
      Array.getElem?_toList, bindings?, parent]
    cases s.locals[n]? with
    | none => rfl
    | some frame => rfl

theorem push?_vector (s : FrameStack) (parent : Nat) :
    s.vector.push? parent = some ((s.push parent).active, (s.push parent).vector) := by
  have hpush : s.vector ++ [⟨parent, []⟩] = (s.push parent).vector := by
    simp [vector, push, Frame.inOrder, Frame.modify]
  rw [FrameVector.push?, hpush, active?_vector]
  rfl

theorem pop_vector (s : FrameStack) : s.vector.pop = s.pop.vector := by
  have hpop : s.pop.vector =
      ⟨0, []⟩ :: ⟨0, s.globals.reverse⟩ :: (s.locals.toList.map Frame.inOrder).dropLast := by
    simp [vector, pop, List.map_dropLast]
  rw [FrameVector.pop, length_vector, active, hpop, vector]
  by_cases hempty : s.locals.toList.map Frame.inOrder = []
  · have hsize : s.locals.size = 0 := by simpa using hempty
    rw [if_neg (by omega), hempty, List.dropLast_nil]
  · have hsize : s.locals.size ≠ 0 := by simpa using hempty
    rw [if_pos (by omega), List.dropLast_cons_of_ne_nil (List.cons_ne_nil _ _),
      List.dropLast_cons_of_ne_nil hempty]

/-- The vector of a stack in which the variables of a frame were changed. -/
theorem set_vector {s : FrameStack} {id : Nat} {b : Bindings} (h : s.bindings? id = some b)
    (change : Bindings → Bindings) :
    s.vector.set id ⟨s.parent id, (change b).reverse⟩ = (s.modify change id).vector := by
  have hid := (s.isSome_bindings?_iff id).mp (by rw [h]; rfl)
  refine List.ext_getElem? fun j => ?_
  rw [List.getElem?_set, length_vector]
  cases j with
  | zero =>
    rw [if_neg (by omega)]
    rfl
  | succ j =>
    rw [getElem?_vector _ (Nat.le_add_left 1 j), getElem?_vector _ (Nat.le_add_left 1 j),
      bindings?_modify, parent_modify]
    by_cases hj : j + 1 = id
    · subst hj
      rw [if_pos rfl, if_pos (by omega), if_pos rfl, h]
      rfl
    · rw [if_neg (Ne.symm hj), if_neg hj]

/-- A variable is added to the vector. -/
theorem bind?_vector (s : FrameStack) (name : String) (value : Value) :
    s.vector.bind? name value = some (s.bind name value).vector := by
  obtain ⟨b, hb⟩ := exists_bindings? s.one_le_active (Nat.le_refl s.active)
  rw [FrameVector.bind?, active?_vector]
  simp only [Option.bind_eq_bind, Option.bind_some, getElem?_vector s s.one_le_active, hb,
    Option.map_some]
  rw [bind, ← set_vector hb, List.reverse_cons]
  rfl

/-- Clearing the frames gives back the vector of the beginning. -/
theorem reset?_vector (s : FrameStack) : s.vector.reset? = some .new := rfl

/-! ## Searching -/

end FrameStack

namespace FrameVector

theorem lastIndex?_append (name : String) (b : Bindings) (entry : String × Value) :
    lastIndex? name (b ++ [entry]) =
      if entry.1 = name then some b.length else lastIndex? name b := by
  induction b with
  | nil => rfl
  | cons first b ih =>
    rw [List.cons_append, lastIndex?, ih]
    by_cases hentry : entry.1 = name
    · rw [if_pos hentry, if_pos hentry]
      rfl
    · rw [if_neg hentry, if_neg hentry, lastIndex?]

/-- Where the latest variable of a name stands, and what is there. -/
inductive Locates (name : String) (b : Bindings) : Option Nat → Prop
  | none (unbound : b.binds name = false) : Locates name b none
  | some {index : Nat} {value : Value} (bound : b.binds name = true)
    (value_eq : b.get? name = some value) (entry : b.reverse[index]? = some (name, value))
    (set_eq : ∀ w, List.set b.reverse index (name, w) = (b.set name w).reverse) :
    Locates name b (some index)

/-- The index of a variable does not miss its frame. -/
theorem locates_lastIndex? (name : String) (b : Bindings) :
    Locates name b (lastIndex? name b.reverse) := by
  induction b with
  | nil => exact .none rfl
  | cons first b ih =>
    rw [List.reverse_cons, lastIndex?_append, List.length_reverse]
    by_cases hfirst : first.1 = name
    · rw [if_pos hfirst]
      have hentry : first = (name, first.2) := Prod.ext hfirst rfl
      have hvalue : Bindings.get? (first :: b) name = some first.2 := by
        simp [Bindings.get?, hfirst]
      refine .some (by simp [Bindings.binds, hfirst]) hvalue ?_ fun w => ?_
      · rw [List.reverse_cons, List.getElem?_append_right (by rw [List.length_reverse]),
          List.length_reverse, Nat.sub_self, ← hentry]
        rfl
      · rw [List.reverse_cons, Bindings.set, if_pos hfirst, List.reverse_cons,
          List.set_append_right _ _ (by rw [List.length_reverse]), List.length_reverse,
          Nat.sub_self]
        rfl
    · rw [if_neg hfirst]
      generalize lastIndex? name b.reverse = index? at ih ⊢
      cases ih with
      | none unbound => exact .none (by simpa [Bindings.binds, hfirst] using unbound)
      | @some index value bound value_eq entry set_eq =>
        have hlt : index < b.reverse.length := (List.getElem?_eq_some_iff.mp entry).1
        have hvalue : Bindings.get? (first :: b) name = some value := by
          simpa [Bindings.get?, hfirst] using value_eq
        refine .some (by simpa [Bindings.binds, hfirst] using bound) hvalue ?_ fun w => ?_
        · rw [List.reverse_cons, List.getElem?_append_left hlt, entry]
        · rw [List.reverse_cons, Bindings.set, if_neg hfirst, List.reverse_cons, ← set_eq w,
            List.set_append_left _ _ hlt]

end FrameVector

namespace FrameStack

/-- The index of the latest variable of a name in a frame. -/
def indexIn (s : FrameStack) (name : String) (id : Nat) : Nat :=
  ((s.bindings? id).bind fun b => FrameVector.lastIndex? name b.reverse).getD 0

/-- What is found in the vector is the variable that is found in the stack. -/
theorem locates_of_frameOf? {s : FrameStack} {name : String} {id : Nat}
    (hid : s.frameOf? name = some id) :
    ∃ b value, s.bindings? id = some b ∧ 1 ≤ id ∧ b.get? name = some value ∧
      b.reverse[s.indexIn name id]? = some (name, value) ∧
      ∀ w, List.set b.reverse (s.indexIn name id) (name, w) = (b.set name w).reverse := by
  obtain ⟨b, hb, hbound⟩ := bindings?_of_frameOf? hid
  have hone := ((s.isSome_bindings?_iff id).mp (by rw [hb]; rfl)).1
  have hlocates := FrameVector.locates_lastIndex? name b
  have hin : s.indexIn name id = (FrameVector.lastIndex? name b.reverse).getD 0 := by
    rw [indexIn, hb]
    rfl
  rw [hin]
  generalize FrameVector.lastIndex? name b.reverse = index? at hlocates ⊢
  cases hlocates with
  | none unbound => rw [hbound] at unbound; cases unbound
  | some bound value_eq entry set_eq => exact ⟨b, _, hb, hone, value_eq, entry, set_eq⟩

section

variable {s : FrameStack} (h : s.WellFormed) (name : String)

include h

/-- A search through the vector ends, and it finds what a search through the stack finds. -/
theorem findFrom?_vector : ∀ {fuel id : Nat}, id < fuel →
    s.vector.findFrom? name fuel id =
      some ((s.frameFrom? name id).map fun id => (id, s.indexIn name id))
  | fuel + 1, 0, _ => rfl
  | fuel + 1, id + 1, hfuel => by
    rw [FrameVector.findFrom?, if_neg (Nat.succ_ne_zero id),
      getElem?_vector s (Nat.le_add_left 1 id)]
    cases hb : s.bindings? (id + 1) with
    | none =>
      have hnone : s.frameFrom? name (id + 1) = none := by
        rw [frameFrom?, chainFrom, hb]
        rfl
      rw [hnone]
      rfl
    | some b =>
      have hlocates := FrameVector.locates_lastIndex? name b
      dsimp only [Option.map_some]
      cases hindex : FrameVector.lastIndex? name b.reverse with
      | none =>
        rw [hindex] at hlocates
        cases hlocates with
        | none unbound =>
          have hlt := h (id + 1) (Nat.le_add_left 1 id)
          rw [frameFrom?_of_unbound h hb unbound]
          exact findFrom?_vector (by omega)
      | some index =>
        rw [hindex] at hlocates
        cases hlocates with
        | some bound =>
          have hin : s.indexIn name (id + 1) = index := by
            rw [indexIn, hb, Option.bind_some, hindex, Option.getD_some]
          rw [frameFrom?_of_bound hb bound, Option.map_some, hin]

theorem find?_vector :
    s.vector.find? name = some ((s.frameOf? name).map fun id => (id, s.indexIn name id)) := by
  rw [FrameVector.find?, active?_vector, length_vector, frameOf?_eq_frameFrom? h]
  exact findFrom?_vector h name (Nat.lt_succ_self s.active)

/-- **Looking a variable up** misses no vector. -/
theorem get?_vector : s.vector.get? name = some (s.get? name) := by
  rw [FrameVector.get?, find?_vector h, get?]
  cases hid : s.frameOf? name with
  | none => rfl
  | some id =>
    obtain ⟨b, value, hb, hone, hvalue, hentry, -⟩ := locates_of_frameOf? hid
    simp only [Option.map_some, Option.bind_eq_bind, Option.bind_some, getElem?_vector s hone, hb,
      hentry, hvalue]
    rfl

/-- **Giving a variable a new value** misses no vector. -/
theorem set?_vector (value : Value) :
    s.vector.set? name value = some ((s.set? name value).map vector) := by
  rw [FrameVector.set?, find?_vector h, set?]
  cases hid : s.frameOf? name with
  | none => rfl
  | some id =>
    obtain ⟨b, old, hb, hone, -, hentry, hset⟩ := locates_of_frameOf? hid
    simp only [Option.map_some, Option.bind_eq_bind, Option.bind_some, getElem?_vector s hone, hb,
      hentry, hset, ← set_vector hb]
    rfl

end

end FrameStack

/-! ## Events -/

/-- An event keeps the order of the frames. -/
theorem wellFormed_apply {s : Snapshot} (h : s.frames.WellFormed) (event : Event) :
    (event.apply s).frames.WellFormed := by
  cases event with
  | call f arguments => exact h.push s.frames.one_le_active
  | block => exact h.push (Nat.le_refl _)
  | leave => exact h.pop
  | bind declaration value => exact h.modify _ _
  | set name value =>
    simp only [Event.apply, Snapshot.set]
    cases hset : s.frames.set? name value with
    | none => exact h
    | some frames => exact h.set? hset

/-- **No access fails during an event.** -/
theorem perform?_vector {s : Snapshot} (h : s.frames.WellFormed) (event : Event) :
    s.frames.vector.perform? event = some (event.apply s).frames.vector := by
  cases event with
  | call f arguments =>
    rw [FrameVector.perform?, FrameStack.push?_vector]
    rfl
  | block =>
    rw [FrameVector.perform?, FrameStack.active?_vector]
    simp only [Option.bind_eq_bind, Option.bind_some, FrameStack.push?_vector]
    rfl
  | leave =>
    rw [FrameVector.perform?, FrameStack.pop_vector]
    rfl
  | bind declaration value =>
    rw [FrameVector.perform?, FrameStack.bind?_vector]
    rfl
  | set name value =>
    rw [FrameVector.perform?, FrameStack.set?_vector h]
    simp only [Option.bind_eq_bind, Option.bind_some, Event.apply, Snapshot.set]
    cases s.frames.set? name value with
    | none => rfl
    | some frames => rfl

/-- **No access fails after any events**: the vector is that of the stack of frames. -/
theorem replay?_eq (events : List Event) :
    (replay events).frames.WellFormed ∧
      FrameVector.replay? events = some (replay events).frames.vector := by
  induction events using List.reverseRecOn with
  | nil => exact ⟨FrameStack.wellFormed_initial, rfl⟩
  | append_singleton events event ih =>
    obtain ⟨hwellFormed, hreplay⟩ := ih
    rw [replay_snoc]
    refine ⟨wellFormed_apply hwellFormed event, ?_⟩
    rw [FrameVector.replay?, List.foldlM_append, ← FrameVector.replay?, hreplay]
    simp only [Option.bind_eq_bind, Option.bind_some, List.foldlM_cons, List.foldlM_nil,
      perform?_vector hwellFormed event]
    rfl

end TypedImp
