import TypedImp.Proofs.Execution.Conduct
import TypedImp.Proofs.Execution.Nesting
import TypedImp.Proofs.Guarded.Frames

/-!
# Frames are left as they were found

A computation pushes frames and pops them at explicit places, and errors may leave it from any depth
of expressions, blocks, loops and calls.  Still, however it ends, the frames that were there before
are there afterwards, in the same order and with the same parents, and no frame is left over.

## Why this is a fact about events

What a computation does to the frames is told by its events, and these are nested: each frame that
is entered is left again, on every way out.  So nothing here looks at programs any more.  It is
enough to follow a word with brackets through the frames, by induction on how it is built.  The
frames at the beginning may be any with parents that stand further down, and so the frames after any
part of the events are such, too: searches for names end in all of them.

* `FrameStack.Kept`: what a computation with some liberty may make of the frames.
* `Nested.kept`: nested events keep the frames.
* `FrameStack.Searchable`: parents stand further down, so searches end.
* `frames_are_disciplined`: **expressions, calls, blocks and statements keep the frames**.
-/

namespace TypedImp

open FrameStack (globalId)

namespace FrameStack

/-- The names of the variables of a frame, the latest first. -/
def names? (s : FrameStack) (id : Nat) : Option (List String) :=
  (s.bindings? id).map (List.map Prod.fst)

/-- What a computation may make of the frames.  There are as many afterwards, with the same parents
and with variables of the same names.  Only if variables may be made, there may be new ones, behind
the others in the active frame.  Values may change in the frame of the globals, by calls, and if
values may change also in the frames that are searched for names. -/
structure Kept (l : Liberty) (s s' : FrameStack) : Prop where
  depth_eq : s'.depth = s.depth
  parent_eq : ∀ id, s'.parent id = s.parent id
  names_eq : ∀ id, l ≠ .variables ∨ id ≠ s.active → s'.names? id = s.names? id
  names_grow : ∃ added, s'.names? s.active = (s.names? s.active).map (added ++ ·)
  values_eq : ∀ id, id ≠ globalId → l.allowsValues = false ∨ id ∉ s.chain →
    s'.bindings? id = s.bindings? id

namespace Kept

variable {l : Liberty} {s s' s'' : FrameStack}

theorem active_eq (h : Kept l s s') : s'.active = s.active := Nat.succ.inj h.depth_eq

theorem refl (l : Liberty) (s : FrameStack) : Kept l s s where
  depth_eq := rfl
  parent_eq _ := rfl
  names_eq _ _ := rfl
  names_grow := ⟨[], by simp⟩
  values_eq _ _ _ := rfl

theorem chain_eq (h : Kept l s s') : s'.chain = s.chain :=
  chain_congr h.active_eq h.parent_eq

theorem trans (h : Kept l s s') (h' : Kept l s' s'') : Kept l s s'' where
  depth_eq := h'.depth_eq.trans h.depth_eq
  parent_eq id := (h'.parent_eq id).trans (h.parent_eq id)
  names_eq id hid := (h'.names_eq id (by rwa [h.active_eq])).trans (h.names_eq id hid)
  names_grow := by
    obtain ⟨added, hadded⟩ := h.names_grow
    obtain ⟨more, hmore⟩ := h'.names_grow
    rw [h.active_eq, hadded] at hmore
    refine ⟨more ++ added, hmore.trans ?_⟩
    cases s.names? s.active with
    | none => rfl
    | some names => simp
  values_eq id hid hunseen :=
    (h'.values_eq id hid (by rwa [h.chain_eq])).trans (h.values_eq id hid hunseen)

/-- A frame that was entered is left, whatever was done inside.  From it no other frames may have
been searched than those that the liberty allows. -/
theorem leave {parent : Nat} {t : FrameStack} (h : Kept .variables (s.push parent) t)
    (hreach : ∀ id ∈ (s.push parent).chain,
      id = s.active + 1 ∨ id = globalId ∨ (l.allowsValues = true ∧ id ∈ s.chain)) :
    Kept l s t.pop := by
  have hone := s.one_le_active
  have hactive : t.active = s.active + 1 := h.active_eq.trans (active_push s parent)
  have hpopped : t.pop.active = s.active := by
    rw [active_pop, hactive]
    omega
  -- a frame is one of those below, or there is no such frame on either side
  have hbelow : ∀ id, id ≤ s.active → t.pop.bindings? id = t.bindings? id := fun id hid =>
    bindings?_pop (by rwa [hpopped])
  have habove : ∀ id, s.active < id → t.pop.bindings? id = s.bindings? id := fun id hid => by
    rw [bindings?_of_active_lt hid, bindings?_of_active_lt (by rwa [hpopped])]
  have hpushed : ∀ id, id ≤ s.active → (s.push parent).bindings? id = s.bindings? id :=
    fun id hid => by rw [bindings?_push, if_neg (by omega)]
  have hnames : ∀ id, t.pop.names? id = s.names? id := by
    intro id
    rcases Nat.lt_or_ge s.active id with hid | hid
    · rw [names?, names?, habove id hid]
    · have hinside := h.names_eq id (Or.inr (by rw [active_push]; omega))
      rw [names?, names?, hpushed id hid] at hinside
      rw [names?, names?, hbelow id hid, hinside]
  refine ⟨congrArg (· + 1) hpopped, fun id => ?_, fun id _ => hnames id,
    ⟨[], by rw [hnames]; simp⟩, fun id hid hunseen => ?_⟩
  · rcases Nat.lt_or_ge s.active id with hlt | hle
    · rw [parent_of_active_lt hlt, parent_of_active_lt (by rwa [hpopped])]
    · rw [parent_pop (by omega), h.parent_eq, parent_push, if_neg (by omega)]
  · rcases Nat.lt_or_ge s.active id with hlt | hle
    · exact habove id hlt
    · have hout : id ∉ (s.push parent).chain := by
        intro hin
        rcases hreach id hin with rfl | rfl | ⟨hallowed, hchain⟩
        · omega
        · exact hid rfl
        · rcases hunseen with hforbidden | hout
          · rw [hallowed] at hforbidden
            cases hforbidden
          · exact hout hchain
      rw [hbelow id hle, h.values_eq id hid (Or.inr hout), hpushed id hle]

/-- From the frame of a call only the globals are searched. -/
theorem leave_call {t : FrameStack} (h : Kept .variables (s.push globalId) t) :
    Kept l s t.pop := by
  refine h.leave fun id hid => ?_
  have hchain : (s.push globalId).chain = [s.active + 1, globalId] := chain_push s globalId
  rw [hchain] at hid
  rcases List.mem_cons.mp hid with hid | hid
  · exact Or.inl hid
  · exact Or.inr (Or.inl (List.mem_singleton.mp hid))

/-- From the frame of a block the frames around it are searched. -/
theorem leave_block {t : FrameStack} (hwf : s.WellFormed) (hl : l.allowsValues = true)
    (h : Kept .variables (s.push s.active) t) : Kept l s t.pop := by
  refine h.leave fun id hid => ?_
  rw [chain_push, chainFrom_push hwf s.active s.depth (Nat.le_refl _)] at hid
  rcases List.mem_cons.mp hid with hid | hid
  · exact Or.inl hid
  · exact Or.inr (Or.inr ⟨hl, hid⟩)

/-- New values in a frame that is searched. -/
theorem modify (hl : l.allowsValues = true) {change : Bindings → Bindings} {id : Nat}
    (hid : id ∈ s.chain) (hnames : ∀ b, (change b).map Prod.fst = b.map Prod.fst) :
    Kept l s (s.modify change id) := by
  have hsame : ∀ j, (s.modify change id).names? j = s.names? j :=
    s.map_bindings?_modify hnames id
  refine ⟨congrArg (· + 1) (active_modify s change id), parent_modify s change id,
    fun j _ => hsame j, ⟨[], by rw [hsame]; simp⟩, fun j _ hunseen => ?_⟩
  have hj : j ≠ id := by
    rintro rfl
    rcases hunseen with hforbidden | hout
    · rw [hl] at hforbidden
      cases hforbidden
    · exact hout hid
  rw [bindings?_modify, if_neg hj]

theorem set (hl : l.allowsValues = true) (name : String) (value : Value) :
    Kept l s ((s.set? name value).getD s) := by
  rw [set?]
  cases hid : s.frameOf? name with
  | none => exact refl l s
  | some id => exact modify hl (List.mem_of_find?_eq_some hid) (Bindings.map_fst_set name value)

theorem bind (s : FrameStack) (name : String) (value : Value) :
    Kept .variables s (s.bind name value) := by
  refine ⟨congrArg (· + 1) (active_modify s _ s.active), parent_modify s _ s.active,
    fun id hid => ?_, ⟨[name], ?_⟩, fun id _ hunseen => ?_⟩
  · have hid : id ≠ s.active := hid.resolve_left fun h => h rfl
    rw [names?, names?, FrameStack.bind, bindings?_modify, if_neg hid]
  · rw [names?, names?, FrameStack.bind, bindings?_modify, if_pos rfl]
    cases s.bindings? s.active <;> rfl
  · have hid : id ≠ s.active := by
      rintro rfl
      rcases hunseen with hforbidden | hout
      · cases hforbidden
      · exact hout s.active_mem_chain
    rw [FrameStack.bind, bindings?_modify, if_neg hid]

end Kept

/-! ## Searches -/

/-- The parents of frames stand further down, so the search for a name in the vector of the frames
comes to an end. -/
structure Searchable (s : FrameStack) : Prop where
  wellFormed : s.WellFormed
  ends : ∀ name, ∃ found, s.vector.find? name = some found

theorem WellFormed.searchable {s : FrameStack} (h : s.WellFormed) : s.Searchable :=
  ⟨h, fun name => ⟨_, find?_vector h name⟩⟩

theorem WellFormed.after {s : FrameStack} (h : s.WellFormed) (events : List Event) :
    (s.after events).WellFormed := by
  induction events generalizing s with
  | nil => exact h
  | cons event events ih => exact ih (wellFormed_apply h event)

end FrameStack

open FrameStack (Kept)

/-- **Nested events keep the frames.** -/
theorem Nested.kept {l : Liberty} {events : List Event} (h : Nested l events) {s : FrameStack}
    (hwf : s.WellFormed) : Kept l s (s.after events) := by
  induction h generalizing s with
  | nil l => exact .refl l s
  | @append l events events' _ _ ih ih' =>
    rw [FrameStack.after_append]
    exact (ih hwf).trans (ih' (hwf.after events))
  | call l f arguments _ ih =>
    have hpushed : (s.push globalId).WellFormed := hwf.push s.one_le_active
    have hinside := ih hpushed
    rw [FrameStack.after_cons, FrameStack.after_append]
    exact hinside.leave_call
  | block hl _ ih =>
    have hinside := ih (hwf.push (Nat.le_refl s.active))
    rw [FrameStack.after_cons, FrameStack.after_append]
    exact hinside.leave_block hwf hl
  | set hl name value => exact .set hl name value
  | bind declaration value => exact .bind s declaration.name value

/-! ## Evaluation -/

/-- A computation leaves the frames as its liberty allows, whether it ends with a result or an
error.  The same computation with a record tells what happened on the way: the frames at the end are
those after all events, and after any part of the events, names can be searched. -/
structure Exec.Disciplined {α : Type} (l : Liberty) (recorded : Logged α) (x : Exec α)
    (m : Machine) : Prop where
  kept : Kept l m.frames (final (x m)).frames
  forget_eq : Logged.forget (recorded ⟨m, []⟩) = x m
  frames_eq : (final (x m)).frames = m.frames.after (final (recorded ⟨m, []⟩)).events
  searchable : ∀ events, events <+: (final (recorded ⟨m, []⟩)).events →
    (m.frames.after events).Searchable

theorem Exec.disciplined_of_nests {α : Type} {l : Liberty} {recorded : Logged α} {x : Exec α}
    {m : Machine} (hwf : m.frames.WellFormed) (hnests : recorded.Nests l)
    (hforget : Logged.forget (recorded ⟨m, []⟩) = x m) : Exec.Disciplined l recorded x m := by
  obtain ⟨events, hnested, hevents, hframes⟩ := hnests ⟨m, []⟩
  have hmachine : (final (x m)).frames = (final (recorded ⟨m, []⟩)).machine.frames := by
    rw [← hforget]
    cases recorded ⟨m, []⟩ <;> rfl
  have hframes' : (final (x m)).frames = m.frames.after events := hmachine.trans hframes
  refine ⟨?_, hforget, ?_, fun before _ => (hwf.after before).searchable⟩
  · rw [hframes']
    exact hnested.kept hwf
  · rw [hframes', hevents]
    rfl

/-- **Frames are left as they were found.**  Let parents stand further down in the frames that a
machine starts with.  Whatever the program is, and however evaluation ends,

* an expression and a call leave all frames with their parents and names, and change no value
  outside the frame of the globals;
* a nested block leaves all frames with their parents and names;
* a list of statements does so but for variables that it may add to the active frame.

After any part of what happens on the way, parents stand further down, and searches for names
end. -/
theorem frames_are_disciplined (program : Program) (fuel : Nat) (m : Machine)
    (h : m.frames.WellFormed) :
    (∀ e, Exec.Disciplined .calls (Logged.evalExpr program fuel e) (evalExpr program fuel e) m) ∧
    (∀ f arguments, Exec.Disciplined .calls (Logged.callFunction program fuel f arguments)
      (callFunction program fuel f arguments) m) ∧
    (∀ block, Exec.Disciplined .values (Logged.execBlock (Logged.execStmt program fuel) block)
      (execBlock (execStmt program fuel) block) m) ∧
    ∀ ss, Exec.Disciplined .variables (Logged.execBody (Logged.execStmt program fuel) ss)
      (execBody (execStmt program fuel) ss) m := by
  have hnests := nestsAt program fuel
  have hfollows := followsAt_record program fuel
  refine ⟨fun e => ?_, fun f arguments => ?_, fun block => ?_, fun ss => ?_⟩
  · exact Exec.disciplined_of_nests h (hnests.expr e) (forget_evalExpr program fuel e ⟨m, []⟩)
  · exact Exec.disciplined_of_nests h (hnests.call f arguments)
      (forget_callFunction program fuel f arguments ⟨m, []⟩)
  · exact Exec.disciplined_of_nests h (.execBlock hnests.stmt rfl block)
      (simulation_eq.execBlock (n := 0) hfollows.stmt block ⟨m, []⟩ m rfl).eq
  · exact Exec.disciplined_of_nests h (.execBody hnests.stmt ss)
      (Follows.execBody (hfollows.stmt 0) ss ⟨m, []⟩ m rfl).eq

/-- A function that changes a global and then fails in a nested block. -/
def sinking : Program where
  globals := [⟨"depth", ⟨.int32, true⟩, none, .unlocated⟩]
  functions :=
    [⟨"sink", [⟨"n", ⟨.int32, false⟩, .unlocated⟩], .int32,
      .unresolved
        [.assign "depth" (.name "n" .unlocated) .unlocated,
        .ifThenElse (.bool true .unlocated)
          (.unresolved
            [.define ⟨"zero", ⟨.int32, false⟩, none, .unlocated⟩,
            .ret (some (.binary .div (.name "n" .unlocated) (.name "zero" .unlocated) .unlocated))
              .unlocated]
            .unlocated)
          (.unresolved [] .unlocated) .unlocated]
        .unlocated, .unlocated⟩]

/-- A call of the function. -/
def sinkCall : Expr :=
  .call (.name "sink" .unlocated) [.number (.int32 7) "7" .unlocated] .unlocated

/-- A machine in the middle of a run, in a nested block of a function. -/
def midway : Machine where
  frames :=
    (((FrameStack.initial.bind "depth" (.int32 0)).push globalId).bind "n" (.int32 5)).push 2
  output := #[]

/-- The call ends with an error, and the frames are those of the caller. -/
theorem sinking_keeps_frames : midway.frames.WellFormed ∧
    ∃ m', evalExpr sinking 9 sinkCall midway =
        .error (.fault ⟨.divisionByZero, .unlocated⟩) m' ∧
      m'.frames.get? "depth" = some (.int32 7) ∧ Kept .calls midway.frames m'.frames := by
  have hwf : midway.frames.WellFormed := by
    have hglobals : (FrameStack.initial.bind "depth" (.int32 0)).WellFormed :=
      FrameStack.wellFormed_initial.modify _ _
    have hcaller : ((FrameStack.initial.bind "depth" (.int32 0)).push globalId).WellFormed :=
      hglobals.push (by decide)
    exact (hcaller.modify _ _).push (by decide)
  have hexpr := (frames_are_disciplined sinking 9 midway hwf).1 sinkCall
  exact ⟨hwf, _, rfl, rfl, hexpr.kept⟩

end TypedImp
