import TypedImp.Proofs.Execution.SafeRuns
import TypedImp.Proofs.Typing.Checking

/-!
# Immutable variables keep their values

Whether a variable may be assigned to is known while checking and forgotten afterwards: frames hold
names and values, and an assignment searches them by name.  That immutable variables stay as they
are is therefore not enforced where it matters, and has to be shown.

## Places

A name can mean different variables at different moments, so what keeps its value is a place: the
number of a frame, and how many variables of the frame are older.  An assignment changes one place
only, and in a lawful history that place was declared mutable.  Everything else that happens adds
places, or takes away whole frames from the top.

* `FrameStack.entryAt?`, `Snapshot.declaredAt?`: the variable at a place, and its declaration.
* `Snapshot.Sound.exists_place_of_set`: an assignment changes the place of one declaration.
* `Snapshot.Sound.apply_keeps_place`: one event leaves an immutable place as it is.
* `Lawful.keeps_place`: so do all events until its frame is left.
* `immutable_variables_keep_their_values`: the same for runs of checked programs.
-/

namespace TypedImp

/-! ## Places -/

/-- The variable at a place: the one of a frame that has so many older ones. -/
def FrameStack.entryAt? (s : FrameStack) (id place : Nat) : Option (String × Value) :=
  (s.bindings? id).bind fun bs => bs.reverse[place]?

/-- The declaration of the variable at a place. -/
def Snapshot.declaredAt? (s : Snapshot) (id place : Nat) : Option Binding :=
  (s.declared id).reverse[place]?

theorem FrameStack.entryAt?_congr {s s' : FrameStack} {id : Nat}
    (h : s'.bindings? id = s.bindings? id) (place : Nat) :
    s'.entryAt? id place = s.entryAt? id place := by
  unfold entryAt?
  rw [h]

/-- What is older stays in its place when something newer is added. -/
theorem getElem?_reverse_cons {α : Type} {xs : List α} {place : Nat} (h : place < xs.length)
    (x : α) : (x :: xs).reverse[place]? = xs.reverse[place]? := by
  rw [List.reverse_cons, List.getElem?_append_left (by rw [List.length_reverse]; exact h)]

theorem getElem?_reverse_set {α : Type} {xs : List α} {i : Nat} (hi : i < xs.length) (x : α)
    (place : Nat) :
    (xs.set i x).reverse[place]? =
      if place = xs.length - 1 - i then some x else xs.reverse[place]? := by
  by_cases hplace : place < xs.length
  · rw [List.getElem?_reverse (by rw [List.length_set]; exact hplace),
      List.getElem?_reverse hplace, List.length_set, List.getElem?_set]
    by_cases heq : place = xs.length - 1 - i
    · rw [if_pos (by omega), if_pos hi, if_pos heq]
    · rw [if_neg (by omega), if_neg heq]
  · rw [if_neg (by omega), List.getElem?_eq_none (by simp; omega),
      List.getElem?_eq_none (by simp; omega)]

/-! ## What an assignment changes -/

/-- An assignment replaces one entry, that of the latest declaration of the name. -/
theorem Bindings.exists_index_of_set {bs : Bindings} {ds : List Binding} {name : String}
    {b : Binding} (h : List.Forall₂ Binding.Holds bs ds)
    (hb : ds.find? (fun d => d.name = name) = some b) :
    ∃ i, ds[i]? = some b ∧ (∃ old, bs[i]? = some (name, old)) ∧
      ∀ value, set name value bs = List.set bs i (name, value) := by
  induction h with
  | nil => cases hb
  | @cons entry d bs ds hd _ ih =>
    rw [List.find?_cons] at hb
    by_cases hn : d.name = name
    · simp only [hn, decide_true] at hb
      obtain rfl : d = b := Option.some.inj hb
      have hentry : entry.1 = name := hd.1.trans hn
      refine ⟨0, rfl, ⟨entry.2, by rw [← hentry]; rfl⟩, fun value => ?_⟩
      unfold set
      rw [if_pos hentry, List.set_cons_zero]
    · simp only [hn, decide_false] at hb
      obtain ⟨i, hi, hold, hset⟩ := ih hb
      refine ⟨i + 1, hi, hold, fun value => ?_⟩
      unfold set
      rw [if_neg (by rw [hd.1]; exact hn), hset, List.set_cons_succ]

namespace Snapshot.Sound

variable {s : Snapshot}

/-- **An assignment changes one place**, and that of the declaration that the name means. -/
theorem exists_place_of_set (h : s.Sound) {name : String} {b : Binding}
    (hb : s.declarationOf? name = some b) (value : Value) :
    ∃ id place, s.declaredAt? id place = some b ∧
      (∃ old, s.frames.entryAt? id place = some (name, old)) ∧
      (s.set name value).frames.entryAt? id place = some (name, value) ∧
      ∀ id' place', id' ≠ id ∨ place' ≠ place →
        (s.set name value).frames.entryAt? id' place' = s.frames.entryAt? id' place' := by
  obtain ⟨id, hid, hset⟩ := h.set?_of_declarationOf? hb value
  obtain ⟨id', bs, hid', hbs, hholds, hfind⟩ := h.frameOf?_of_declarationOf? hb
  obtain rfl : id = id' := Option.some.inj (hid.symm.trans hid')
  obtain ⟨i, hi, ⟨old, hold⟩, hlist⟩ := Bindings.exists_index_of_set hholds hfind
  have hlt : i < bs.length := (List.getElem?_eq_some_iff.mp hold).1
  have hlength : bs.length = (s.declared id).length := hholds.length_eq
  have hframes : (s.set name value).frames = s.frames.modify (Bindings.set name value) id := by
    rw [Snapshot.set, hset, Option.getD_some]
  have hentry : ∀ place, (s.set name value).frames.entryAt? id place =
      if place = bs.length - 1 - i then some (name, value) else bs.reverse[place]? := by
    intro place
    rw [FrameStack.entryAt?, hframes, FrameStack.bindings?_modify, if_pos rfl, hbs, Option.map_some,
      Option.bind_some, hlist, getElem?_reverse_set hlt]
  refine ⟨id, bs.length - 1 - i, ?_, ⟨old, ?_⟩, ?_, fun j place hne => ?_⟩
  · rw [declaredAt?, List.getElem?_reverse (by omega), ← hi]
    congr 1
    omega
  · rw [FrameStack.entryAt?, hbs, Option.bind_some, List.getElem?_reverse (by omega), ← hold]
    congr 1
    omega
  · rw [hentry, if_pos rfl]
  · by_cases hj : j = id
    · rw [hj, hentry, if_neg (by omega), FrameStack.entryAt?, hbs, Option.bind_some]
    · refine FrameStack.entryAt?_congr ?_ place
      rw [hframes, FrameStack.bindings?_modify, if_neg hj]

/-! ## What an event leaves as it is -/

section Keeps

variable {id place : Nat} {b : Binding}

theorem push_keeps_place (hb : s.declaredAt? id place = some b) (hid : id ≤ s.frames.active)
    (parent : Nat) :
    (s.push parent).declaredAt? id place = some b ∧
      (s.push parent).frames.entryAt? id place = s.frames.entryAt? id place := by
  have hne : id ≠ s.frames.active + 1 := by omega
  constructor
  · rw [declaredAt?, declared_push, if_neg hne]
    exact hb
  · refine FrameStack.entryAt?_congr ?_ place
    rw [Snapshot.push, FrameStack.bindings?_push, if_neg hne]

/-- A new variable comes behind those that were there. -/
theorem bind_keeps_place (h : s.Sound) (hb : s.declaredAt? id place = some b)
    (hid : id ≤ s.frames.active) (declaration : Binding) (value : Value) :
    (s.bind declaration value).declaredAt? id place = some b ∧
      (s.bind declaration value).frames.entryAt? id place = s.frames.entryAt? id place := by
  by_cases hactive : id = s.frames.active
  · have hplace : place < (s.declared id).length := by
      have hlt := (List.getElem?_eq_some_iff.mp hb).1
      rwa [List.length_reverse] at hlt
    have hone : 1 ≤ id := by
      rw [hactive]
      exact s.frames.one_le_active
    obtain ⟨bs, hbs⟩ := FrameStack.exists_bindings? hone hid
    have hlength : bs.length = (s.declared id).length := (h.holds id bs hbs).length_eq
    constructor
    · rw [declaredAt?, declared_bind, if_pos hactive, getElem?_reverse_cons hplace]
      exact hb
    · rw [FrameStack.entryAt?, FrameStack.entryAt?, Snapshot.bind, FrameStack.bind,
        FrameStack.bindings?_modify, if_pos hactive, hbs, Option.map_some, Option.bind_some,
        Option.bind_some, getElem?_reverse_cons (by omega)]
  · constructor
    · rw [declaredAt?, declared_bind, if_neg hactive]
      exact hb
    · refine FrameStack.entryAt?_congr ?_ place
      rw [Snapshot.bind, FrameStack.bind, FrameStack.bindings?_modify, if_neg hactive]

/-- The place that an assignment changes was declared mutable, so an immutable one is another. -/
theorem set_keeps_place (h : s.Sound) (hb : s.declaredAt? id place = some b)
    (himmutable : b.type.isMutable = false) {name : String} {b' : Binding}
    (hb' : s.declarationOf? name = some b') (hmutable : b'.type.isMutable = true) (value : Value) :
    (s.set name value).frames.entryAt? id place = s.frames.entryAt? id place := by
  obtain ⟨id', place', hdeclared, -, -, hother⟩ := h.exists_place_of_set hb' value
  refine hother id place ?_
  by_contra hsame
  rw [not_or, not_not, not_not] at hsame
  obtain ⟨rfl, rfl⟩ := hsame
  obtain rfl : b = b' := Option.some.inj (hb.symm.trans hdeclared)
  rw [hmutable] at himmutable
  cases himmutable

/-- **One event leaves an immutable place as it is**, unless it takes the frame away. -/
theorem apply_keeps_place {program : Program} {event : Event} (h : s.Sound)
    (hevent : event.Lawful program s) (hb : s.declaredAt? id place = some b)
    (himmutable : b.type.isMutable = false) (hid : id ≤ s.frames.active)
    (hstays : id ≤ (event.apply s).frames.active) :
    (event.apply s).declaredAt? id place = some b ∧
      (event.apply s).frames.entryAt? id place = s.frames.entryAt? id place := by
  cases event with
  | call f arguments => exact push_keeps_place hb hid _
  | block => exact push_keeps_place hb hid _
  | leave => exact ⟨hb, FrameStack.entryAt?_congr (FrameStack.bindings?_pop hstays) place⟩
  | bind declaration value => exact h.bind_keeps_place hb hid declaration value
  | set name value =>
    obtain ⟨b', hb', hmutable, -⟩ := hevent
    exact ⟨hb, h.set_keeps_place hb himmutable hb' hmutable value⟩

end Keeps

/-- A new variable comes to the place behind those of its frame. -/
theorem bind_at_place (h : s.Sound) (declaration : Binding) (value : Value) :
    (s.bind declaration value).declaredAt? s.frames.active (s.declared s.frames.active).length =
        some declaration ∧
      (s.bind declaration value).frames.entryAt? s.frames.active
        (s.declared s.frames.active).length = some (declaration.name, value) := by
  obtain ⟨bs, hbs⟩ := FrameStack.exists_bindings? s.frames.one_le_active (Nat.le_refl _)
  have hlength : bs.length = (s.declared s.frames.active).length := (h.holds _ bs hbs).length_eq
  constructor
  · rw [declaredAt?, declared_bind, if_pos rfl, List.reverse_cons, ← List.length_reverse,
      List.getElem?_concat_length]
  · rw [FrameStack.entryAt?, Snapshot.bind, FrameStack.bind, FrameStack.bindings?_modify,
      if_pos rfl, hbs, Option.map_some, Option.bind_some, List.reverse_cons, ← hlength,
      ← List.length_reverse, List.getElem?_concat_length]

end Snapshot.Sound

/-- **An immutable place stays as it is** through all events of a lawful history, until its frame is
left. -/
theorem Lawful.keeps_place {program : Program} {events mid : List Event}
    (h : Lawful program (events ++ mid)) {id place : Nat} {b : Binding}
    (hb : (replay events).declaredAt? id place = some b) (himmutable : b.type.isMutable = false)
    (hstays : ∀ part, part <+: mid → id ≤ (replay (events ++ part)).frames.active) :
    (replay (events ++ mid)).declaredAt? id place = some b ∧
      (replay (events ++ mid)).frames.entryAt? id place =
        (replay events).frames.entryAt? id place := by
  induction mid using List.reverseRecOn with
  | nil =>
    rw [List.append_nil]
    exact ⟨hb, rfl⟩
  | append_singleton mid event ih =>
    rw [← List.append_assoc] at h ⊢
    have hmid := hstays mid (List.prefix_append mid [event])
    have hall := hstays (mid ++ [event]) (List.prefix_refl _)
    obtain ⟨hdeclared, hentry⟩ := ih h.of_append fun part hpart =>
      hstays part (hpart.trans (List.prefix_append mid [event]))
    rw [← List.append_assoc, replay_snoc] at hall
    rw [replay_snoc, ← hentry]
    exact h.of_append.sound.apply_keeps_place (h _ event [] rfl) hdeclared himmutable hmid hall

/-- **Immutable variables keep their values.**  The recorded run is the run, and its frames are what
the recorded events make of them.  In it

* every assignment changes one variable, and that one was made by a declaration as mutable;
* a variable that was made by any other declaration, global, parameter or local, still has its first
  value at every later moment, unless its frame has been left in between. -/
theorem immutable_variables_keep_their_values {p : Program} {c : Checked}
    (checked : checkProgram p = .ok c) (fuel : Nat) (name : String) (arguments : List Value)
    (m : Machine) :
    (((m.record c.program fuel name arguments).1,
        (m.record c.program fuel name arguments).2.machine) = m.run c.program fuel name arguments ∧
      ∀ f, entry c.program name arguments = .ok f →
        (m.record c.program fuel name arguments).2.machine.frames =
          (replay (m.record c.program fuel name arguments).2.events).frames) ∧
    (∀ before x value after,
      (m.record c.program fuel name arguments).2.events = before ++ .set x value :: after →
      ∃ id place b, (replay before).declaredAt? id place = some b ∧ b.type.isMutable = true ∧
        (∃ old, (replay before).frames.entryAt? id place = some (x, old)) ∧
        (replay (before ++ [.set x value])).frames.entryAt? id place = some (x, value) ∧
        ∀ id' place', id' ≠ id ∨ place' ≠ place →
          (replay (before ++ [.set x value])).frames.entryAt? id' place' =
            (replay before).frames.entryAt? id' place') ∧
    ∀ before b value mid after,
      (m.record c.program fuel name arguments).2.events =
        before ++ .bind b value :: (mid ++ after) →
      b.type.isMutable = false →
      (∀ part, part <+: mid → (replay before).frames.active ≤
        (replay (before ++ .bind b value :: part)).frames.active) →
      (replay (before ++ .bind b value :: mid)).frames.entryAt? (replay before).frames.active
        ((replay before).declared (replay before).frames.active).length = some (b.name, value) := by
  obtain ⟨signatures, typed⟩ := programTyped_of_checkProgram checked
  have hlawful := lawful_record typed fuel name arguments m
  refine ⟨⟨Machine.record_eq_run _ _ _ _ _, fun f hentry => ?_⟩, ?_, ?_⟩
  · obtain ⟨L, hsound⟩ := sound_record typed fuel hentry m
    exact hsound.frames_eq
  · intro before x value after hsplit
    obtain ⟨b, hb, hmutable, -⟩ := hlawful before _ after hsplit
    rw [hsplit] at hlawful
    obtain ⟨id, place, hplace⟩ := hlawful.of_append.sound.exists_place_of_set hb value
    rw [replay_snoc]
    exact ⟨id, place, b, hplace.1, hmutable, hplace.2⟩
  · intro before b value mid after hsplit himmutable hstays
    have hcons : ∀ part, before ++ .bind b value :: part = (before ++ [.bind b value]) ++ part :=
      fun part => by rw [List.append_assoc, List.singleton_append]
    have hreplay : replay (before ++ [.bind b value]) = (replay before).bind b value :=
      replay_snoc before _
    rw [hsplit] at hlawful
    obtain ⟨hdeclared, hentry⟩ := hlawful.of_append.sound.bind_at_place b value
    rw [← hreplay] at hdeclared hentry
    rw [hcons, ← List.append_assoc] at hlawful
    have hkeeps := hlawful.of_append.keeps_place hdeclared himmutable fun part hpart => by
      rw [← hcons]
      exact hstays part hpart
    rw [hcons, hkeeps.2, hentry]

/-- A program with an immutable global, and a function that has a mutable variable of the same
name. -/
def shadowing : Program where
  globals := [⟨"limit", ⟨.int32, false⟩, some (.number (.int32 3) "3" .unlocated), .unlocated⟩]
  functions :=
    [⟨"main", [], .int32, .unresolved
      [.define ⟨"limit", ⟨.int32, true⟩, some (.name "limit" .unlocated), .unlocated⟩,
      .assign "limit" (.binary .add (.name "limit" .unlocated)
        (.number (.int32 1) "1" .unlocated) .unlocated) .unlocated,
      .ret (some (.name "limit" .unlocated)) .unlocated] .unlocated, .unlocated⟩]

/-- The assignment to the name of the global does not reach the global. -/
theorem shadowing_keeps_global : ∃ c, checkProgram shadowing = .ok c ∧
    ∃ mid, (Machine.initial.record c.program 9 "main" []).2.events =
        .bind ⟨"limit", ⟨.int32, false⟩⟩ (.int32 3) :: mid ∧
      .set "limit" (.int32 4) ∈ mid ∧
      (replay (Machine.initial.record c.program 9 "main" []).2.events).frames.entryAt? 1 0 =
        some ("limit", .int32 3) := by
  refine ⟨_, rfl, _, rfl, by simp, ?_⟩
  exact (immutable_variables_keep_their_values (rfl : checkProgram shadowing = .ok _) 9 "main" []
    .initial).2.2 [] _ _ _ [] (by rw [List.append_nil]; rfl) rfl
      fun part _ => FrameStack.one_le_active _

end TypedImp
