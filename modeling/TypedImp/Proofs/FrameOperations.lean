import TypedImp.Proofs.Execution.Simulation
import TypedImp.Proofs.Guarded.Frames

/-!
# What the operations on frames do

Frames are pushed, popped and dropped, and variables are made and get new values.  A running program
does so in some order only.  Here the order is arbitrary, and so is the parent of a frame that is
pushed, as long as there is such a frame: it need not be the frame below, nor that of the globals.
A name may have several variables in one frame and in several frames.

## Two views of frames

Looking up is told best by the stack of frames, and which variable it is that a name means by the
vector, where each variable has its own index.  The two views are carried along together, operation
by operation, and every statement is made in the view in which it is plain.

* `FrameStack.Operation`, `FrameStack.Reached`: frames after any operations, in both views.
* `FrameVector.Ordered`: two frames stay, and parents stand further down.
* `FrameVector.Nearest`, `FrameVector.Means`: the variable that a name means.
* `FrameStack.Assigned`: **a new value changes one variable**, the one that the name means.
* `FrameStack.OnTop`: what is done in a frame that is pushed is gone when it is popped.
* `frame_stack_operations`: all of it, after any operations.
-/

namespace TypedImp

/-! ## The variables of one frame -/

namespace Bindings

theorem binds_eq_isSome_get? (b : Bindings) (name : String) :
    b.binds name = (b.get? name).isSome := by
  induction b with
  | nil => rfl
  | cons entry b ih =>
    unfold binds get? at ih ⊢
    rw [List.any_cons, List.find?_cons, ih]
    by_cases hname : entry.1 = name
    · simp [hname]
    · simp [hname]

/-- A variable hides the earlier ones of its name. -/
theorem get?_cons (entry : String × Value) (b : Bindings) (name : String) :
    get? (entry :: b) name = if entry.1 = name then some entry.2 else b.get? name := by
  unfold get?
  by_cases hname : entry.1 = name
  · simp [hname]
  · simp [hname]

/-- The latest variable of the name gets the value, if there is one. -/
theorem get?_set (b : Bindings) (name other : String) (value : Value) :
    (b.set name value).get? other =
      if other = name then (b.get? name).map fun _ => value else b.get? other := by
  induction b with
  | nil => exact (ite_self none).symm
  | cons entry b ih =>
    by_cases hname : entry.1 = name
    · rw [set, if_pos hname, get?_cons, get?_cons, get?_cons, if_pos hname, Option.map_some, hname]
      by_cases hother : other = name
      · rw [if_pos hother, if_pos hother.symm]
      · rw [if_neg hother, if_neg (Ne.symm hother), if_neg (Ne.symm hother)]
    · rw [set, if_neg hname, get?_cons, get?_cons, get?_cons, if_neg hname, ih]
      by_cases hother : other = name
      · rw [if_pos hother, if_pos hother, if_neg (hother ▸ hname)]
      · rw [if_neg hother, if_neg hother]

/-- No variable is made by giving one a new value. -/
theorem binds_set (b : Bindings) (name other : String) (value : Value) :
    (b.set name value).binds other = b.binds other := by
  rw [binds_eq_isSome_get?, binds_eq_isSome_get?, get?_set]
  by_cases hother : other = name
  · rw [if_pos hother, Option.isSome_map, hother]
  · rw [if_neg hother]

end Bindings

namespace FrameStack

variable {s s' : FrameStack} {name : String} {value : Value}

/-! ## Looking up -/

theorem bindsIn_eq (s : FrameStack) (name : String) (id : Nat) :
    s.bindsIn name id = ((s.bindings? id).map fun b => b.binds name).getD false := by
  rw [bindsIn]
  cases s.bindings? id <;> rfl

/-- A change of the variables of a frame after which the same names are bound. -/
theorem frameOf?_modify (s : FrameStack) {change : Bindings → Bindings} (name : String)
    (hbinds : ∀ b : Bindings, (change b).binds name = b.binds name) (id : Nat) :
    (s.modify change id).frameOf? name = s.frameOf? name := by
  have hin : (s.modify change id).bindsIn name = s.bindsIn name := by
    funext j
    rw [bindsIn_eq, bindsIn_eq, s.map_bindings?_modify hbinds]
  rw [frameOf?, frameOf?, chain_modify, hin]

/-- A change of the variables of a frame that concerns other names only. -/
theorem get?_modify (s : FrameStack) {change : Bindings → Bindings} (name : String)
    (hsame : ∀ b : Bindings, (change b).get? name = b.get? name) (id : Nat) :
    (s.modify change id).get? name = s.get? name := by
  have hbinds : ∀ b : Bindings, (change b).binds name = b.binds name := fun b => by
    rw [Bindings.binds_eq_isSome_get?, Bindings.binds_eq_isSome_get?, hsame]
  have hvalue : ∀ j, (((s.modify change id).bindings? j).bind fun b => b.get? name) =
      (s.bindings? j).bind fun b => b.get? name := by
    intro j
    rw [bindings?_modify]
    by_cases hj : j = id
    · rw [if_pos hj, Option.bind_map]
      exact congrArg (s.bindings? j).bind (funext hsame)
    · rw [if_neg hj]
  rw [get?, get?, s.frameOf?_modify name hbinds]
  simp only [hvalue]

/-- Names mean variables of the active frame first. -/
theorem frameOf?_of_active (bound : s.bindsIn name s.active = true) :
    s.frameOf? name = some s.active := by
  rw [frameOf?, chain_eq_cons, List.find?_cons_of_pos bound]

/-! ## New variables -/

/-- **A new variable** is what its name means from then on. -/
theorem get?_bind (s : FrameStack) (name : String) (value : Value) :
    (s.bind name value).get? name = some value := by
  obtain ⟨b, hb⟩ := exists_bindings? s.one_le_active (Nat.le_refl s.active)
  have hactive : (s.bind name value).active = s.active := active_modify ..
  have hbindings : (s.bind name value).bindings? s.active = some ((name, value) :: b) := by
    rw [bind, bindings?_modify, if_pos rfl, hb, Option.map_some]
  have hbound : (s.bind name value).bindsIn name s.active = true := by
    rw [bindsIn, hbindings]
    simp [Bindings.binds]
  rw [get?, frameOf?_of_active (by rw [hactive]; exact hbound), hactive, Option.bind_some,
    hbindings, Option.bind_some, Bindings.get?_cons, if_pos rfl]

theorem get?_bind_of_ne (s : FrameStack) {other : String} (hne : other ≠ name) (value : Value) :
    (s.bind name value).get? other = s.get? other :=
  s.get?_modify other (fun b => by rw [Bindings.get?_cons, if_neg (Ne.symm hne)]) s.active

/-! ## New values -/

theorem isSome_get? (s : FrameStack) (name : String) :
    (s.get? name).isSome = (s.frameOf? name).isSome := by
  rw [get?]
  cases hid : s.frameOf? name with
  | none => rfl
  | some id =>
    obtain ⟨b, value, hb, -, hvalue, -⟩ := locates_of_frameOf? hid
    rw [Option.bind_some, hb, Option.bind_some, hvalue]
    rfl

/-- Names that mean a variable can be given a value, and no others. -/
theorem isSome_set? (s : FrameStack) (name : String) (value : Value) :
    (s.set? name value).isSome = (s.get? name).isSome := by
  rw [isSome_get?, set?, Option.isSome_map]

theorem get?_set? (h : s.set? name value = some s') : s'.get? name = some value := by
  obtain ⟨id, hid, rfl⟩ := Option.map_eq_some_iff.mp h
  obtain ⟨b, hb, hbound⟩ := bindings?_of_frameOf? hid
  obtain ⟨old, hold⟩ := Option.isSome_iff_exists.mp (b.binds_eq_isSome_get? name ▸ hbound)
  rw [get?, s.frameOf?_modify name fun b => b.binds_set name name value, hid, Option.bind_some,
    bindings?_modify, if_pos rfl, hb, Option.map_some, Option.bind_some, Bindings.get?_set,
    if_pos rfl, hold]
  rfl

theorem get?_set?_of_ne (h : s.set? name value = some s') {other : String} (hne : other ≠ name) :
    s'.get? other = s.get? other := by
  obtain ⟨id, -, rfl⟩ := Option.map_eq_some_iff.mp h
  exact s.get?_modify other (fun b => by rw [Bindings.get?_set, if_neg hne]) id

end FrameStack

/-! ## The variable that a name means -/

namespace FrameVector

/-- On the way from a frame to its parent and so on, the first frame with a variable of a name. -/
inductive Nearest (v : FrameVector) (name : String) : Nat → Nat → Prop
  | here {id : Nat} {frame : Frame} (h : v[id]? = some frame)
    (bound : ∃ entry ∈ frame.bindings, entry.1 = name) : Nearest v name id id
  | onward {id found : Nat} {frame : Frame} (h : v[id]? = some frame)
    (unbound : ∀ entry ∈ frame.bindings, entry.1 ≠ name)
    (rest : Nearest v name frame.parent found) : Nearest v name id found

/-- What a name means: in the nearest frame from the active one on, the last variable of that
name. -/
structure Means (v : FrameVector) (name : String) (id : Nat) (frame : Frame) (index : Nat)
    (value : Value) : Prop where
  nearest : ∃ active, v.active? = some active ∧ v.Nearest name active id
  frame_eq : v[id]? = some frame
  entry : frame.bindings[index]? = some (name, value)
  last : ∀ later entry, index < later → frame.bindings[later]? = some entry → entry.1 ≠ name

theorem lastIndex?_eq_none {name : String} {b : Bindings} (h : lastIndex? name b = none) :
    ∀ entry ∈ b, entry.1 ≠ name := by
  induction b with
  | nil => exact fun entry hentry => absurd hentry List.not_mem_nil
  | cons first b ih =>
    rw [lastIndex?] at h
    cases hrest : lastIndex? name b with
    | some index => simp [hrest] at h
    | none =>
      have hfirst : first.1 ≠ name := fun hname => by simp [hrest, hname] at h
      exact List.forall_mem_cons.mpr ⟨hfirst, ih hrest⟩

/-- The last variable of a name has none of that name behind it. -/
theorem lastIndex?_last {name : String} {b : Bindings} {index : Nat}
    (h : lastIndex? name b = some index) :
    ∀ later entry, index < later → b[later]? = some entry → entry.1 ≠ name := by
  induction b generalizing index with
  | nil => cases h
  | cons first b ih =>
    intro later entry hlater hentry
    obtain ⟨later, rfl⟩ : ∃ n, later = n + 1 := ⟨later - 1, by omega⟩
    rw [List.getElem?_cons_succ] at hentry
    rw [lastIndex?] at h
    cases hrest : lastIndex? name b with
    | some index' =>
      simp only [hrest, Option.some.injEq] at h
      exact ih hrest later entry (by omega) hentry
    | none => exact lastIndex?_eq_none hrest entry (List.mem_of_getElem? hentry)

end FrameVector

namespace FrameStack

variable {s s' : FrameStack} {name : String} {value : Value}

/-- Searching the stack gives the nearest frame in the vector. -/
theorem nearest_of_frameFrom? (h : s.WellFormed) {id found : Nat}
    (hfound : s.frameFrom? name id = some found) : s.vector.Nearest name id found := by
  induction id using Nat.strongRecOn with
  | ind id ih =>
    cases hb : s.bindings? id with
    | none =>
      have hnone : s.frameFrom? name id = none := by
        cases id with
        | zero => rfl
        | succ n => rw [frameFrom?, chainFrom, hb]; rfl
      rw [hnone] at hfound
      cases hfound
    | some b =>
      have hone := ((s.isSome_bindings?_iff id).mp (by rw [hb]; rfl)).1
      have hframe := s.getElem?_vector hone
      rw [hb, Option.map_some] at hframe
      cases hbound : b.binds name with
      | true =>
        rw [frameFrom?_of_bound hb hbound] at hfound
        obtain rfl := Option.some.inj hfound
        exact .here hframe (by simpa [Bindings.binds] using hbound)
      | false =>
        rw [frameFrom?_of_unbound h hb hbound] at hfound
        exact .onward hframe (by simpa [Bindings.binds] using hbound)
          (ih (s.parent id) (h id hone) hfound)

/-- The variable that is found is the one that the name means. -/
theorem means_of_frameOf? (h : s.WellFormed) {id : Nat} (hid : s.frameOf? name = some id) :
    ∃ b old, s.bindings? id = some b ∧ b.get? name = some old ∧
      s.vector.Means name id ⟨s.parent id, b.reverse⟩ (s.indexIn name id) old ∧
      ∀ w, List.set b.reverse (s.indexIn name id) (name, w) = (b.set name w).reverse := by
  obtain ⟨b, old, hb, hone, hold, hentry, hset⟩ := locates_of_frameOf? hid
  have hframe := s.getElem?_vector hone
  rw [hb, Option.map_some] at hframe
  have hnearest := nearest_of_frameFrom? h (frameOf?_eq_frameFrom? h name ▸ hid)
  refine ⟨b, old, hb, hold, ⟨⟨s.active, s.active?_vector, hnearest⟩, hframe, hentry, ?_⟩, hset⟩
  have hindex : FrameVector.lastIndex? name b.reverse = some (s.indexIn name id) := by
    rw [indexIn, hb, Option.bind_some]
    cases hlast : FrameVector.lastIndex? name b.reverse with
    | some index => rfl
    | none =>
      exact absurd rfl (FrameVector.lastIndex?_eq_none hlast _ (List.mem_of_getElem? hentry))
  exact FrameVector.lastIndex?_last hindex

/-- What a new value changes: the name has it from then on, other names mean what they meant, and
in the vector only the variable that the name meant is another. -/
structure Assigned (s : FrameStack) (name : String) (value : Value) (s' : FrameStack) : Prop where
  here : s'.get? name = some value
  others : ∀ other, other ≠ name → s'.get? other = s.get? other
  slot : ∃ id frame index old, s.get? name = some old ∧ s.vector.Means name id frame index old ∧
    s'.vector = s.vector.set id
      { frame with bindings := List.set frame.bindings index (name, value) }

/-- **A new value changes one variable**, the one that the name means. -/
theorem assigned_of_set? (h : s.WellFormed) (hset : s.set? name value = some s') :
    s.Assigned name value s' where
  here := get?_set? hset
  others _ hne := get?_set?_of_ne hset hne
  slot := by
    obtain ⟨id, hid, rfl⟩ := Option.map_eq_some_iff.mp hset
    obtain ⟨b, old, hb, hold, hmeans, hlist⟩ := means_of_frameOf? h hid
    refine ⟨id, _, _, old, ?_, hmeans, ?_⟩
    · rw [get?, hid, Option.bind_some, hb, Option.bind_some, hold]
    · rw [← set_vector hb, hlist]

/-! ## A frame on top -/

theorem pop_push (s : FrameStack) (parent : Nat) : (s.push parent).pop = s := by
  simp [push, pop]

/-- Changes in a frame are gone when it is popped. -/
theorem pop_modify_active (hlocal : 2 ≤ s.active) (change : Bindings → Bindings) :
    (s.modify change s.active).pop = s.pop := by
  obtain ⟨n, hn⟩ : ∃ n, s.active = n + 2 := ⟨s.active - 2, by omega⟩
  have hsize : s.locals.size = n + 1 := Nat.succ.inj hn
  have hlocals : (s.locals.modify n (Frame.modify change)).pop = s.locals.pop := by
    refine Array.ext_getElem? fun j => ?_
    rw [Array.getElem?_pop, Array.getElem?_pop, Array.size_modify]
    by_cases hj : j < s.locals.size - 1
    · rw [if_pos hj, if_pos hj, Array.getElem?_modify, if_neg (by omega)]
    · rw [if_neg hj, if_neg hj]
  rw [hn, modify, pop, pop, hlocals]

/-! ## Operations -/

/-- What can be done to frames. -/
inductive Operation where
  | push (parent : Nat)
  | pop
  /-- Everything is dropped. -/
  | reset
  | bind (name : String) (value : Value)
  | set (name : String) (value : Value)

/-- What an operation makes of the frames.  Without a variable of the name, setting it does
nothing. -/
def perform (s : FrameStack) : Operation → FrameStack
  | .push parent => s.push parent
  | .pop => s.pop
  | .reset => .initial
  | .bind name value => s.bind name value
  | .set name value => (s.set? name value).getD s

end FrameStack

namespace FrameVector

/-- The parent of a frame that is pushed has to be a frame that is there. -/
def Permits (v : FrameVector) : FrameStack.Operation → Prop
  | .push parent => parent < v.length
  | _ => True

/-- What an operation makes of a vector, if every index that it uses is there. -/
def carryOut? (v : FrameVector) : FrameStack.Operation → Option FrameVector
  | .push parent => (v.push? parent).map Prod.snd
  | .pop => some v.pop
  | .reset => v.reset?
  | .bind name value => v.bind? name value
  | .set name value => (v.set? name value).map fun result => result.getD v

/-- Two frames stay, of which the first is never used, and every parent stands further down. -/
structure Ordered (v : FrameVector) : Prop where
  two_le_length : 2 ≤ v.length
  unused : v[0]? = some ⟨0, []⟩
  parent_lt : ∀ id frame, 1 ≤ id → v[id]? = some frame → frame.parent < id

end FrameVector

namespace FrameStack

variable {s s' : FrameStack} {v v' : FrameVector} {op : Operation} {name : String} {value : Value}

theorem ordered_vector (h : s.WellFormed) : s.vector.Ordered where
  two_le_length := by
    have := s.one_le_active
    rw [length_vector]
    omega
  unused := rfl
  parent_lt id frame hid hframe := by
    rw [getElem?_vector s hid] at hframe
    obtain ⟨b, -, rfl⟩ := Option.map_eq_some_iff.mp hframe
    exact h id hid

theorem WellFormed.perform (h : s.WellFormed) (permitted : s.vector.Permits op) :
    (s.perform op).WellFormed := by
  cases op with
  | push parent =>
    have hparent : parent < s.active + 1 := s.length_vector ▸ permitted
    exact h.push (Nat.le_of_lt_succ hparent)
  | pop => exact h.pop
  | reset => exact wellFormed_initial
  | bind name value => exact h.modify _ _
  | set name value =>
    rw [FrameStack.perform]
    cases hset : s.set? name value with
    | none => exact h
    | some s' => exact h.set? hset

/-- **No operation misses the vector**, and both views stay together. -/
theorem carryOut?_vector (h : s.WellFormed) (op : Operation) :
    s.vector.carryOut? op = some (s.perform op).vector := by
  cases op with
  | push parent =>
    rw [FrameVector.carryOut?, push?_vector]
    rfl
  | pop => rw [FrameVector.carryOut?, pop_vector]; rfl
  | reset => exact reset?_vector s
  | bind name value => exact bind?_vector s name value
  | set name value =>
    rw [FrameVector.carryOut?, set?_vector h, Option.map_some, perform]
    cases s.set? name value <;> rfl

/-- Frames after any operations, in both views. -/
inductive Reached : FrameStack → FrameVector → Prop
  | initial : Reached .initial .new
  | step {s : FrameStack} {v v' : FrameVector} {op : Operation} (h : Reached s v)
    (permitted : v.Permits op) (done : v.carryOut? op = some v') : Reached (s.perform op) v'

theorem Reached.together (h : s.Reached v) : s.WellFormed ∧ v = s.vector := by
  induction h with
  | initial => exact ⟨wellFormed_initial, rfl⟩
  | step _ permitted done ih =>
    obtain ⟨hwf, rfl⟩ := ih
    refine ⟨hwf.perform permitted, ?_⟩
    rw [carryOut?_vector hwf] at done
    exact (Option.some.inj done).symm

/-- Every operation that is permitted can be carried out. -/
theorem Reached.perform (h : s.Reached s.vector) (op : Operation)
    (permitted : s.vector.Permits op) : (s.perform op).Reached (s.perform op).vector :=
  .step h permitted (carryOut?_vector h.together.1 op)

/-- Frames with a frame on top of others in which something was done: variables were made, and
variables of that frame got new values. -/
inductive OnTop (s : FrameStack) (parent : Nat) : FrameStack → Prop
  | push : OnTop s parent (s.perform (.push parent))
  | bind {s' : FrameStack} (h : OnTop s parent s') (name : String) (value : Value) :
    OnTop s parent (s'.perform (.bind name value))
  | set {s' : FrameStack} (h : OnTop s parent s') (name : String)
    (bound : s'.bindsIn name s'.active = true) (value : Value) :
    OnTop s parent (s'.perform (.set name value))

/-- The value of a variable of the active frame changes in that frame. -/
theorem perform_set_of_active (bound : s.bindsIn name s.active = true) (value : Value) :
    s.perform (.set name value) = s.modify (Bindings.set name value) s.active := by
  rw [perform, set?, frameOf?_of_active bound]
  rfl

/-- **Popping takes away what was done in the frame on top**, and nothing else. -/
theorem OnTop.pop_eq {parent : Nat} (h : s.OnTop parent s') :
    s'.active = s.active + 1 ∧ s'.pop = s := by
  -- That the frame stays the active one is carried along, because all changes are made there.
  have hchange : ∀ (s' : FrameStack) (change : Bindings → Bindings),
      s'.active = s.active + 1 ∧ s'.pop = s →
      (s'.modify change s'.active).active = s.active + 1 ∧
        (s'.modify change s'.active).pop = s := by
    rintro s' change ⟨hactive, hpop⟩
    have hlocal : 2 ≤ s'.active := hactive ▸ Nat.succ_le_succ s.one_le_active
    constructor
    · rw [active_modify, hactive]
    · rw [pop_modify_active hlocal, hpop]
  induction h with
  | push => exact ⟨active_push s parent, pop_push s parent⟩
  | bind _ name value ih => exact hchange _ _ ih
  | set _ name bound value ih =>
    rw [perform_set_of_active bound]
    exact hchange _ _ ih

/-- What is on top of frames that are reached is reached from there. -/
theorem OnTop.reached {parent : Nat} (h : s.OnTop parent s') (hs : s.Reached s.vector)
    (existing : parent < s.vector.length) : s'.Reached s'.vector := by
  induction h with
  | push => exact hs.perform _ existing
  | bind _ name value ih => exact ih.perform _ trivial
  | set _ name bound value ih => exact ih.perform _ trivial

end FrameStack

/-- **Frames after any operations.**

* There are two frames at least, the unused one is empty, and every parent stands further down.
* Operations that are permitted are carried out, and names mean the same in both views.
* A new variable is what its name means, and all other names mean what they meant.
* A name can be given a value if it means a variable, and then what `FrameStack.Assigned` says has
  changed and nothing else; otherwise nothing happens, and a run ends with an error.
* A frame that is pushed, and then worked in, leaves no trace when it is popped. -/
theorem frame_stack_operations {s : FrameStack} {v : FrameVector} (reached : s.Reached v) :
    v.Ordered ∧
    (∀ op, v.carryOut? op = some (s.perform op).vector) ∧
    (∀ name, v.get? name = some (s.get? name)) ∧
    (∀ name value, (s.perform (.bind name value)).get? name = some value ∧
      ∀ other, other ≠ name → (s.perform (.bind name value)).get? other = s.get? other) ∧
    (∀ name value, v.set? name value = some ((s.set? name value).map FrameStack.vector) ∧
      (s.set? name value).isSome = (s.get? name).isSome ∧
      ((s.get? name).isSome = true → s.Assigned name value (s.perform (.set name value))) ∧
      (s.get? name = none → s.perform (.set name value) = s ∧
        ∀ span output, Exec.assign name value span ⟨s, output⟩ =
          .error (.fault ⟨.unboundVariable name, span⟩) ⟨s, output⟩)) ∧
    ∀ parent s', parent < v.length → s.OnTop parent s' →
      s'.Reached s'.vector ∧ s'.perform .pop = s ∧ s'.vector.carryOut? .pop = some v := by
  obtain ⟨hwf, rfl⟩ := reached.together
  refine ⟨FrameStack.ordered_vector hwf, FrameStack.carryOut?_vector hwf,
    FrameStack.get?_vector hwf, fun name value => ⟨s.get?_bind name value, fun other hne =>
      s.get?_bind_of_ne hne value⟩, fun name value => ⟨FrameStack.set?_vector hwf name value,
        s.isSome_set? name value, ?bound, ?unbound⟩, fun parent s' existing htop => ?top⟩
  case bound =>
    intro hbound
    rw [← s.isSome_set? name value] at hbound
    obtain ⟨s', hset⟩ := Option.isSome_iff_exists.mp hbound
    have hperform : s.perform (.set name value) = s' := by rw [FrameStack.perform, hset]; rfl
    rw [hperform]
    exact FrameStack.assigned_of_set? hwf hset
  case unbound =>
    intro hunbound
    have hset : s.set? name value = none := by
      rw [← Option.not_isSome_iff_eq_none, s.isSome_set?, hunbound]
      exact Bool.false_ne_true
    refine ⟨by rw [FrameStack.perform, hset]; rfl, fun span output => ?_⟩
    exact Exec.assign_of_none span hset
  case top =>
    have hpop := htop.pop_eq.2
    have hreached := htop.reached reached existing
    refine ⟨hreached, hpop, ?_⟩
    rw [FrameStack.carryOut?_vector hreached.together.1]
    exact congrArg (some ∘ FrameStack.vector) hpop

/-- A global variable, and on top of it the frames of a function and of a block, each with a
variable of one name. -/
def nestedFrames : FrameStack :=
  ⟨[("g", .int32 1)], #[⟨1, [("x", .int32 2)]⟩, ⟨2, [("x", .int32 3)]⟩]⟩

theorem reached_nestedFrames : nestedFrames.Reached nestedFrames.vector := by
  have globals := FrameStack.Reached.initial.perform (.bind "g" (.int32 1)) trivial
  have function := (globals.perform (.push 1) (Nat.lt_succ_self 1)).perform
    (.bind "x" (.int32 2)) trivial
  exact (function.perform (.push 2) (Nat.lt_succ_self 2)).perform (.bind "x" (.int32 3)) trivial

/-- From the block, the variable of the globals gets a new value and a name without variable does
not.  One more frame, with a parent that is not the block, leaves no trace. -/
theorem nestedFrames_operations :
    nestedFrames.Reached nestedFrames.vector ∧
      (nestedFrames.perform (.set "g" (.int32 10))).get? "g" = some (.int32 10) ∧
      (nestedFrames.perform (.set "g" (.int32 10))).get? "x" = some (.int32 3) ∧
      nestedFrames.perform (.set "y" (.int32 10)) = nestedFrames ∧
      ((((nestedFrames.perform (.push 2)).perform (.bind "x" (.int32 4))).perform
        (.set "x" (.int32 5))).perform .pop) = nestedFrames := by
  obtain ⟨-, -, -, -, hset, htop⟩ := frame_stack_operations reached_nestedFrames
  have hglobal := (hset "g" (.int32 10)).2.2.1 (by decide)
  have hblock : nestedFrames.get? "x" = some (.int32 3) := by decide
  have hunbound := (hset "y" (.int32 10)).2.2.2 (by decide)
  have hpopped := htop 2 _ (by decide)
    (.set (.bind .push "x" (.int32 4)) "x" (by decide) (.int32 5))
  exact ⟨reached_nestedFrames, hglobal.here, (hglobal.others "x" (by decide)).trans hblock,
    hunbound.1, hpopped.2.1⟩

end TypedImp
