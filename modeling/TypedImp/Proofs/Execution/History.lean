import Mathlib.Data.List.Induction
import TypedImp.Proofs.Execution.Events
import TypedImp.Proofs.Execution.Frames

/-!
# Lawful histories

A frame keeps names and values.  What was promised about them, their types and whether they may
change, stands in the declarations, which the running program no longer has.  The moments of a
history have both, so here it is said what an event may do: a call hands over arguments that fit,
a variable starts with a value of its type, and an assignment goes to a variable that was declared
mutable and keeps its type.

## Why the law is about events

Everything that one wants to know of the frames at some moment follows from the law for the events
before it, by an induction over the events that knows nothing of programs.  The other half, that
programs obey the law, then need not carry along what the frames hold.

* `Snapshot.declarationOf?`: the declaration of the variable that a name means.
* `Event.Lawful`, `Lawful`: what an event may do, and histories in which every event does so.
* `Snapshot.Sound`, `Lawful.sound`: after a lawful history, values have the types declared for them.
* `Snapshot.Sound.get?_of_declarationOf?`, `Snapshot.Sound.set?_of_declarationOf?`: variables that
  were declared are found.
-/

namespace TypedImp

/-! ## Variables beside declarations -/

/-- A variable is what its declaration says: it has the name, and a value of the type. -/
def Binding.Holds (entry : String × Value) (b : Binding) : Prop :=
  entry.1 = b.name ∧ entry.2.ty = b.type.ty

namespace Bindings

variable {bs : Bindings} {ds : List Binding} {name : String} {b : Binding}

/-- A name is bound if it was declared. -/
theorem binds_eq_of_holds (h : List.Forall₂ Binding.Holds bs ds) (name : String) :
    bs.binds name = (ds.find? fun d => d.name = name).isSome := by
  induction h with
  | nil => rfl
  | @cons entry d bs ds hd _ ih =>
    unfold binds at ih ⊢
    rw [List.any_cons, List.find?_cons, hd.1, ih]
    by_cases hn : d.name = name
    · simp [hn]
    · simp [hn]

/-- The value of a name has the type of the latest declaration. -/
theorem get?_of_holds (h : List.Forall₂ Binding.Holds bs ds)
    (hb : ds.find? (fun d => d.name = name) = some b) :
    ∃ value, bs.get? name = some value ∧ value.ty = b.type.ty := by
  induction h with
  | nil => cases hb
  | @cons entry d bs ds hd _ ih =>
    unfold get? at ih ⊢
    rw [List.find?_cons] at hb ⊢
    rw [hd.1]
    by_cases hn : d.name = name
    · simp only [hn, decide_true] at hb ⊢
      obtain rfl : d = b := Option.some.inj hb
      exact ⟨entry.2, rfl, hd.2⟩
    · simp only [hn, decide_false] at hb ⊢
      exact ih hb

/-- An assignment keeps the types, if the new value has that of the latest declaration. -/
theorem holds_set (h : List.Forall₂ Binding.Holds bs ds)
    (hb : ds.find? (fun d => d.name = name) = some b) {value : Value}
    (hvalue : value.ty = b.type.ty) : List.Forall₂ Binding.Holds (set name value bs) ds := by
  induction h with
  | nil => cases hb
  | @cons entry d bs ds hd htail ih =>
    rw [List.find?_cons] at hb
    unfold set
    rw [hd.1]
    by_cases hn : d.name = name
    · simp only [hn, decide_true] at hb
      obtain rfl : d = b := Option.some.inj hb
      rw [if_pos hn]
      exact .cons ⟨hn.symm, hvalue⟩ htail
    · simp only [hn, decide_false] at hb
      rw [if_neg hn]
      exact .cons hd (ih hb)

end Bindings

/-! ## Lawful events -/

namespace Snapshot

/-- The declaration of the variable that a name means at a moment. -/
def declarationOf? (s : Snapshot) (name : String) : Option Binding :=
  (s.frames.frameOf? name).bind fun id => (s.declared id).find? fun b => b.name = name

/-- A moment at which searches come to an end and every variable is what its declaration says. -/
structure Sound (s : Snapshot) : Prop where
  wellFormed : s.frames.WellFormed
  holds : ∀ id bs, s.frames.bindings? id = some bs →
    List.Forall₂ Binding.Holds bs (s.declared id)

end Snapshot

/-- The arguments of a call fit the function: they are as many as the parameters, and each has the
type of its parameter. -/
def FunDecl.Accepts (f : FunDecl) (arguments : List Value) : Prop :=
  List.Forall₂ (fun value (parameter : Parameter) => value.ty = parameter.type.ty) arguments
    f.parameters

/-- What an event may do at a moment. -/
def Event.Lawful (program : Program) (s : Snapshot) : Event → Prop
  | call f arguments => f ∈ program.functions ∧ f.Accepts arguments
  | bind declaration value => value.ty = declaration.type.ty
  | set name value => ∃ b, s.declarationOf? name = some b ∧ b.type.isMutable = true ∧
    value.ty = b.type.ty
  | block | leave => True

/-- Every event of a history is lawful at the moment at which it happens. -/
def Lawful (program : Program) (events : List Event) : Prop :=
  ∀ before event after, events = before ++ event :: after → event.Lawful program (replay before)

theorem lawful_nil (program : Program) : Lawful program [] := by
  intro before event after h
  cases before <;> cases h

theorem Lawful.snoc {program : Program} {events : List Event} {event : Event}
    (h : Lawful program events) (hevent : event.Lawful program (replay events)) :
    Lawful program (events ++ [event]) := by
  intro before e after heq
  rcases List.eq_nil_or_concat after with rfl | ⟨after, last, rfl⟩
  · obtain ⟨rfl, hlast⟩ := List.append_inj' heq rfl
    obtain rfl : event = e := (List.cons.inj hlast).1
    exact hevent
  · rw [List.concat_eq_append, ← List.cons_append, ← List.append_assoc] at heq
    obtain ⟨hinit, -⟩ := List.append_inj' heq rfl
    exact h before e after hinit

theorem Lawful.of_append {program : Program} {events more : List Event}
    (h : Lawful program (events ++ more)) : Lawful program events := by
  intro before event after heq
  exact h before event (after ++ more) (by rw [heq, List.append_assoc, List.cons_append])

/-! ## Sound moments -/

namespace Snapshot

theorem sound_initial : initial.Sound where
  wellFormed := FrameStack.wellFormed_initial
  holds := fun id bs h => by
    match id with
    | 0 => cases h
    | 1 => cases h; exact .nil
    | n + 2 => simp [initial, FrameStack.initial, FrameStack.bindings?] at h

namespace Sound

variable {s : Snapshot}

theorem push (h : s.Sound) {parent : Nat} (hp : parent ≤ s.frames.active) :
    (s.push parent).Sound where
  wellFormed := h.wellFormed.push hp
  holds := fun id bs hbs => by
    simp only [Snapshot.push, FrameStack.bindings?_push] at hbs ⊢
    by_cases hid : id = s.frames.active + 1
    · rw [if_pos hid] at hbs ⊢
      cases hbs
      exact .nil
    · rw [if_neg hid] at hbs ⊢
      exact h.holds id bs hbs

theorem pop (h : s.Sound) : s.pop.Sound where
  wellFormed := h.wellFormed.pop
  holds := fun id bs hbs => h.holds id bs (FrameStack.bindings?_of_pop hbs)

theorem bind (h : s.Sound) {declaration : Binding} {value : Value}
    (hvalue : value.ty = declaration.type.ty) : (s.bind declaration value).Sound where
  wellFormed := h.wellFormed.modify _ _
  holds := fun id bs hbs => by
    simp only [Snapshot.bind, FrameStack.bind, FrameStack.bindings?_modify] at hbs ⊢
    by_cases hid : id = s.frames.active
    · rw [if_pos hid] at hbs ⊢
      obtain ⟨older, holder, rfl⟩ := Option.map_eq_some_iff.mp hbs
      exact .cons ⟨rfl, hvalue⟩ (h.holds id older holder)
    · rw [if_neg hid] at hbs ⊢
      exact h.holds id bs hbs

/-- The variable that a name means is in the frame where the search ends, with its declaration. -/
theorem frameOf?_of_declarationOf? {name : String} {b : Binding}
    (h : s.Sound) (hb : s.declarationOf? name = some b) :
    ∃ id bs, s.frames.frameOf? name = some id ∧ s.frames.bindings? id = some bs ∧
      List.Forall₂ Binding.Holds bs (s.declared id) ∧
      (s.declared id).find? (fun d => d.name = name) = some b := by
  obtain ⟨id, hid, hfind⟩ := Option.bind_eq_some_iff.mp hb
  obtain ⟨bs, hbs, -⟩ := FrameStack.bindings?_of_frameOf? hid
  exact ⟨id, bs, hid, hbs, h.holds id bs hbs, hfind⟩

/-- A variable that was declared has a value of its type. -/
theorem get?_of_declarationOf? {name : String} {b : Binding} (h : s.Sound)
    (hb : s.declarationOf? name = some b) :
    ∃ value, s.frames.get? name = some value ∧ value.ty = b.type.ty := by
  obtain ⟨id, bs, hid, hbs, hholds, hfind⟩ := h.frameOf?_of_declarationOf? hb
  obtain ⟨value, hget, hty⟩ := Bindings.get?_of_holds hholds hfind
  refine ⟨value, ?_, hty⟩
  unfold FrameStack.get?
  rw [hid, Option.bind_some, hbs, Option.bind_some, hget]

/-- A variable that was declared can be given a new value. -/
theorem set?_of_declarationOf? {name : String} {b : Binding} (h : s.Sound)
    (hb : s.declarationOf? name = some b) (value : Value) :
    ∃ id, s.frames.frameOf? name = some id ∧
      s.frames.set? name value = some (s.frames.modify (Bindings.set name value) id) := by
  obtain ⟨id, -, hid, -, -, -⟩ := h.frameOf?_of_declarationOf? hb
  refine ⟨id, hid, ?_⟩
  unfold FrameStack.set?
  rw [hid, Option.map_some]

theorem set (h : s.Sound) {name : String} {b : Binding} {value : Value}
    (hb : s.declarationOf? name = some b) (hvalue : value.ty = b.type.ty) :
    (s.set name value).Sound := by
  obtain ⟨id, hid, hset⟩ := h.set?_of_declarationOf? hb value
  obtain ⟨id', older, hid', holder, hholds, hfind⟩ := h.frameOf?_of_declarationOf? hb
  obtain rfl : id = id' := Option.some.inj (hid.symm.trans hid')
  have hframes : (s.set name value).frames = s.frames.modify (Bindings.set name value) id := by
    rw [Snapshot.set, hset, Option.getD_some]
  refine ⟨hframes ▸ h.wellFormed.modify _ _, fun j bs hbs => ?_⟩
  rw [hframes, FrameStack.bindings?_modify] at hbs
  by_cases hj : j = id
  · rw [if_pos hj, hj, holder] at hbs
    cases hbs
    rw [hj]
    exact Bindings.holds_set hholds hfind hvalue
  · rw [if_neg hj] at hbs
    exact h.holds j bs hbs

theorem apply {program : Program} {event : Event} (h : s.Sound)
    (hevent : event.Lawful program s) : (event.apply s).Sound := by
  cases event with
  | call f arguments => exact h.push s.frames.one_le_active
  | block => exact h.push (Nat.le_refl _)
  | leave => exact h.pop
  | bind declaration value => exact h.bind hevent
  | set name value =>
    obtain ⟨b, hb, -, hvalue⟩ := hevent
    exact h.set hb hvalue

end Sound

end Snapshot

/-- **Values have the types that were declared**, at every moment of a lawful history. -/
theorem Lawful.sound {program : Program} {events : List Event} (h : Lawful program events) :
    (replay events).Sound := by
  induction events using List.reverseRecOn with
  | nil => exact Snapshot.sound_initial
  | append_singleton events event ih =>
    rw [replay_snoc]
    exact (ih h.of_append).apply (h events event [] rfl)

end TypedImp
