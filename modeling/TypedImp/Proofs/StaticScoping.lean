import TypedImp.Proofs.Execution.Frames
import TypedImp.Proofs.Execution.Simulation

/-!
# Calls do not see their caller

A function called from deep inside a program runs on top of the frames of its callers.  Its names
are searched for in its own frames and then in the globals, so the frames of the callers should not
matter at all: neither what they hold nor how many they are.

## How two stacks of different height are compared

Both are compared with a third one, that has no callers.  Putting frames below a stack moves the
numbers of its frames up, and with them the numbers that its frames name as the place where a
search goes on; only the globals keep their number.  That is `FrameStack.graft`.  It commutes with
every operation on a stack that has a frame of its own, so by `Simulation` a call on a stack with
callers is the call without them, grafted.  What the callers had is below and never touched.

* `FrameStack.graft`: frames put below a stack.
* `Grafted`, `simulation_grafted`: machines that differ by callers and by what was printed before.
* `callFunction_eq_after`: a call is the call without callers, put back into its place.
* `CallEnds`, `CallEnds.unique`: what a call comes to, whatever the fuel.
* `call_depends_on_globals_only`: two calls on machines with the same globals.
-/

namespace TypedImp

namespace FrameStack

/-! ## Frames put below a stack -/

/-- The number of a frame after frames were put below it. -/
def raised (k id : Nat) : Nat := if id ≤ 1 then id else id + k

@[simp] theorem raised_zero (k : Nat) : raised k 0 = 0 := rfl

@[simp] theorem raised_one (k : Nat) : raised k 1 = 1 := rfl

@[simp] theorem raised_add_two (k n : Nat) : raised k (n + 2) = n + k + 2 := by
  simp only [raised]
  rw [if_neg (by omega)]
  omega

/-- A frame after frames were put below it. -/
def raiseFrame (k : Nat) (f : Frame) : Frame := { f with parent := raised k f.parent }

/-- Puts frames between the globals and the other frames of a stack. -/
def graft (base : Array Frame) (s : FrameStack) : FrameStack :=
  ⟨s.globals, base ++ s.locals.map (raiseFrame base.size)⟩

section Graft

variable (base : Array Frame) (s : FrameStack)

theorem getElem?_graft (n : Nat) :
    (graft base s).locals[n + base.size]? = s.locals[n]?.map (raiseFrame base.size) := by
  unfold graft
  rw [Array.getElem?_append_right (by omega), Nat.add_sub_cancel, Array.getElem?_map]

theorem active_graft (h : 2 ≤ s.active) :
    (graft base s).active = raised base.size s.active := by
  have hactive : s.active = s.locals.size + 1 := rfl
  have hsize : (graft base s).active = base.size + s.locals.size + 1 := by simp [graft, active]
  rw [hsize, raised, if_neg (by omega)]
  omega

theorem bindings?_graft (id : Nat) :
    (graft base s).bindings? (raised base.size id) = s.bindings? id := by
  match id with
  | 0 => rfl
  | 1 => rfl
  | n + 2 =>
    rw [raised_add_two]
    simp only [bindings?]
    rw [getElem?_graft, Option.map_map]
    rfl

theorem parent_graft (id : Nat) :
    (graft base s).parent (raised base.size id) = raised base.size (s.parent id) := by
  match id with
  | 0 => rfl
  | 1 => rfl
  | n + 2 =>
    rw [raised_add_two]
    simp only [parent]
    rw [getElem?_graft]
    cases s.locals[n]? with
    | none => rfl
    | some f => rfl

theorem modify_graft (change : Bindings → Bindings) (id : Nat) :
    (graft base s).modify change (raised base.size id) = graft base (s.modify change id) := by
  match id with
  | 0 => rfl
  | 1 => rfl
  | n + 2 =>
    rw [raised_add_two]
    simp only [modify, graft, FrameStack.mk.injEq, true_and]
    apply Array.ext_getElem?
    intro j
    by_cases hj : j < base.size
    · rw [Array.getElem?_modify, if_neg (by omega), Array.getElem?_append_left hj,
        Array.getElem?_append_left hj]
    · obtain ⟨i, rfl⟩ : ∃ i, j = i + base.size := ⟨j - base.size, by omega⟩
      rw [Array.getElem?_modify, Array.getElem?_append_right (by omega),
        Array.getElem?_append_right (by omega), Nat.add_sub_cancel, Array.getElem?_map,
        Array.getElem?_map, Array.getElem?_modify]
      by_cases hi : n = i
      · rw [if_pos (by omega), if_pos hi, Option.map_map, Option.map_map]
        rfl
      · rw [if_neg (by omega), if_neg hi]

theorem push_globals_graft :
    (graft base s).push globalId = graft base (s.push globalId) := by
  simp [push, graft, raiseFrame, globalId]

theorem push_active_graft (h : 2 ≤ s.active) :
    (graft base s).push (graft base s).active = graft base (s.push s.active) := by
  rw [active_graft base s h]
  simp [push, graft, raiseFrame]

theorem pop_graft (h : 2 ≤ s.active) : (graft base s).pop = graft base s.pop := by
  have hactive : s.active = s.locals.size + 1 := rfl
  have hne : s.locals.map (raiseFrame base.size) ≠ #[] := by
    intro he
    have hsize := congrArg Array.size he
    rw [Array.size_map, Array.size_empty] at hsize
    omega
  simp only [pop, graft]
  rw [Array.pop_append_of_ne_empty hne, Array.map_pop]

theorem bind_graft (h : 2 ≤ s.active) (name : String) (value : Value) :
    (graft base s).bind name value = graft base (s.bind name value) := by
  unfold bind
  rw [active_graft base s h, modify_graft]

/-! ### Searches -/

theorem chainFrom_graft (fuel id : Nat) :
    (graft base s).chainFrom fuel (raised base.size id) =
      (s.chainFrom fuel id).map (raised base.size) := by
  induction fuel generalizing id with
  | zero => rfl
  | succ fuel ih =>
    simp only [chainFrom]
    rw [bindings?_graft, parent_graft, ih]
    cases s.bindings? id with
    | none => rfl
    | some b => rfl

theorem frameOf?_graft (wf : s.WellFormed) (h : 2 ≤ s.active) (name : String) :
    (graft base s).frameOf? name = (s.frameOf? name).map (raised base.size) := by
  have hbinds : (graft base s).bindsIn name ∘ raised base.size = s.bindsIn name := by
    funext id
    simp only [Function.comp_apply, bindsIn]
    rw [bindings?_graft]
  have hdepth : s.active ≤ (graft base s).depth := by
    simp only [depth, graft, active, Array.size_append, Array.size_map]
    omega
  unfold frameOf? chain
  rw [active_graft base s h, chainFrom_graft, List.find?_map, hbinds,
    chainFrom_eq_of_le wf hdepth (by simp only [depth, active]; omega : s.active ≤ s.depth)]

theorem get?_graft (wf : s.WellFormed) (h : 2 ≤ s.active) (name : String) :
    (graft base s).get? name = s.get? name := by
  unfold get?
  rw [frameOf?_graft base s wf h]
  cases s.frameOf? name with
  | none => rfl
  | some id =>
    simp only [Option.map_some, Option.bind_some]
    rw [bindings?_graft]

theorem set?_graft (wf : s.WellFormed) (h : 2 ≤ s.active) (name : String) (value : Value) :
    (graft base s).set? name value = (s.set? name value).map (graft base) := by
  unfold set?
  rw [frameOf?_graft base s wf h]
  cases s.frameOf? name with
  | none => rfl
  | some id =>
    simp only [Option.map_some]
    rw [modify_graft]

end Graft

end FrameStack

/-! ## Machines with and without callers -/

/-- The first machine is the second one with frames put below, and with lines printed before. -/
structure Grafted (base : Array Frame) (printed : Array String) (n : Nat) (m m' : Machine) :
    Prop where
  wellFormed : m'.frames.WellFormed
  active_eq : m'.frames.active = n + 1
  frames_eq : m.frames = m'.frames.graft base
  output_eq : m.output = printed ++ m'.output

theorem Grafted.two_le_active {base : Array Frame} {printed : Array String} {n : Nat}
    {m m' : Machine} (h : Grafted base printed (n + 1) m m') : 2 ≤ m'.frames.active := by
  rw [h.active_eq]
  omega

theorem simulation_grafted (base : Array Frame) (printed : Array String) :
    Simulation (Grafted base printed) where
  get? := fun {n m m'} h name => by
    rw [h.frames_eq]
    exact FrameStack.get?_graft base m'.frames h.wellFormed h.two_le_active name
  set? := fun {n m m'} h name value => by
    have hset := FrameStack.set?_graft base m'.frames h.wellFormed h.two_le_active name value
    rw [← h.frames_eq] at hset
    cases hs : m'.frames.set? name value with
    | none =>
      rw [hs] at hset
      exact Or.inl ⟨hset, rfl⟩
    | some s =>
      rw [hs] at hset
      obtain ⟨id, -, rfl⟩ := Option.map_eq_some_iff.mp hs
      refine Or.inr ⟨_, _, hset, rfl, h.wellFormed.modify _ id, ?_, rfl, h.output_eq⟩
      rw [FrameStack.active_modify, h.active_eq]
  bind := fun {n m m'} h name value => by
    refine ⟨h.wellFormed.modify _ _, ?_, ?_, h.output_eq⟩
    · rw [FrameStack.bind, FrameStack.active_modify, h.active_eq]
    · simp only
      rw [h.frames_eq, FrameStack.bind_graft base m'.frames h.two_le_active]
  print := fun {n m m'} h lines => by
    refine ⟨h.wellFormed, h.active_eq, h.frames_eq, ?_⟩
    rw [h.output_eq]
    exact Array.ext' (by simp [List.append_assoc])
  call := fun {n m m'} h => by
    refine ⟨h.wellFormed.push (FrameStack.one_le_active _), ?_, ?_, h.output_eq⟩
    · rw [FrameStack.active_push, h.active_eq]
    · simp only
      rw [h.frames_eq, FrameStack.push_globals_graft]
  block := fun {n m m'} h => by
    refine ⟨h.wellFormed.push (Nat.le_refl _), ?_, ?_, h.output_eq⟩
    · rw [FrameStack.active_push, h.active_eq]
    · simp only
      rw [h.frames_eq, FrameStack.push_active_graft base m'.frames h.two_le_active]
  leave := fun {n m m'} h => by
    refine ⟨h.wellFormed.pop, ?_, ?_, h.output_eq⟩
    · rw [FrameStack.active_pop, h.active_eq]
      omega
    · simp only
      rw [h.frames_eq, FrameStack.pop_graft base m'.frames h.two_le_active]

namespace Machine

/-- A machine with globals and nothing else. -/
def bare (globals : Bindings) : Machine := ⟨⟨globals, #[]⟩, #[]⟩

/-- A machine after something that changed the globals and printed lines, and left all other frames
as they were. -/
def after (m : Machine) (globals : Bindings) (printed : Array String) : Machine :=
  ⟨⟨globals, m.frames.locals⟩, m.output ++ printed⟩

end Machine

theorem grafted_bare (m : Machine) :
    Grafted m.frames.locals m.output 0 m (.bare m.frames.globals) where
  wellFormed := FrameStack.wellFormed_initial
  active_eq := rfl
  frames_eq := by simp [Machine.bare, FrameStack.graft]
  output_eq := by simp [Machine.bare]

theorem Grafted.eq_after {m m' mb : Machine} (h : Grafted m.frames.locals m.output 0 m' mb) :
    m' = m.after mb.frames.globals mb.output := by
  have hempty : mb.frames.locals = #[] := Array.eq_empty_of_size_eq_zero (Nat.succ.inj h.active_eq)
  have hframes : m'.frames = ⟨mb.frames.globals, m.frames.locals⟩ := by
    rw [h.frames_eq, FrameStack.graft, hempty]
    simp
  cases m' with
  | mk frames output =>
    dsimp only at hframes
    rw [Machine.after, hframes, ← h.output_eq]

/-! ## Calls that end -/

/-- The end of a computation that came to a value or an error. -/
def ended {α : Type} : Except Error α → Machine → EStateM.Result Stop Machine α
  | .ok a, m => .ok a m
  | .error e, m => .error (.fault e) m

/-- A call comes, with enough fuel, to a value or an error, and leaves a machine behind. -/
def CallEnds (program : Program) (f : FunDecl) (arguments : List Value) (m : Machine)
    (result : Except Error Value) (m' : Machine) : Prop :=
  ∃ fuel, callFunction program fuel f arguments m = ended result m'

theorem ended_inj {α : Type} {result result' : Except Error α} {m m' : Machine}
    (h : ended result m = ended result' m') : result = result' ∧ m = m' := by
  cases result <;> cases result' <;> cases h <;> exact ⟨rfl, rfl⟩

theorem ended_ne_exhausted {α : Type} (result : Except Error α) (m m' : Machine) :
    ended result m ≠ .error .exhausted m' := by
  cases result <;> intro h <;> cases h

section Calls

variable {program : Program} {f : FunDecl} {arguments : List Value}

/-- Whatever fuel a call was given, it comes to the same. -/
theorem CallEnds.unique {m m' m'' : Machine} {result result' : Except Error Value}
    (h : CallEnds program f arguments m result m')
    (h' : CallEnds program f arguments m result' m'') : result = result' ∧ m' = m'' := by
  obtain ⟨fuel, hfuel⟩ := h
  obtain ⟨fuel', hfuel'⟩ := h'
  -- with the larger of the two both come to the same
  have hleft := callFunction_mono (Nat.le_max_left fuel fuel') f arguments m
    (fun m₁ => by rw [hfuel]; exact ended_ne_exhausted result m' m₁)
  have hright := callFunction_mono (Nat.le_max_right fuel fuel') f arguments m
    (fun m₁ => by rw [hfuel']; exact ended_ne_exhausted result' m'' m₁)
  exact ended_inj (hfuel.symm.trans (hleft.symm.trans (hright.trans hfuel')))

/-- **A call is the call without callers, put back into its place.** -/
theorem callEnds_iff (m m' : Machine) (result : Except Error Value) :
    CallEnds program f arguments m result m' ↔
      ∃ mb, CallEnds program f arguments (.bare m.frames.globals) result mb ∧
        m' = m.after mb.frames.globals mb.output := by
  have hagree : ∀ fuel, Agree False (Grafted m.frames.locals m.output 0)
      (callFunction program fuel f arguments m)
      (callFunction program fuel f arguments (.bare m.frames.globals)) := fun fuel =>
    (simulation_grafted m.frames.locals m.output).callFunction (Or.inl rfl) (grafted_bare m) f
      arguments
  constructor
  · rintro ⟨fuel, hfuel⟩
    have h := hagree fuel
    rw [hfuel] at h
    generalize hright : callFunction program fuel f arguments (.bare m.frames.globals) = right at h
    cases result with
    | ok value =>
      cases h with
      | ok hgrafted => exact ⟨_, ⟨fuel, hright⟩, hgrafted.eq_after⟩
    | error e =>
      cases h with
      | error hgrafted => exact ⟨_, ⟨fuel, hright⟩, hgrafted.eq_after⟩
  · rintro ⟨mb, ⟨fuel, hfuel⟩, rfl⟩
    have h := hagree fuel
    rw [hfuel] at h
    generalize hleft : callFunction program fuel f arguments m = left at h
    refine ⟨fuel, hleft.trans ?_⟩
    cases result with
    | ok value =>
      cases h with
      | ok hgrafted => rw [hgrafted.eq_after]; rfl
      | spent h => exact h.elim
    | error e =>
      cases h with
      | error hgrafted => rw [hgrafted.eq_after]; rfl
      | spent h => exact h.elim

end Calls

/-- **Calls depend on the globals only.**  On two machines with the same globals, whatever frames
and however many of them the callers have, a call ends on both or on neither.  If it ends, it comes
to the same value or the same error, leaves the same globals and prints the same lines, and all
frames that were there before are left exactly as they were. -/
theorem call_depends_on_globals_only (program : Program) (f : FunDecl) (arguments : List Value)
    {m₁ m₂ : Machine} (same : m₁.frames.globals = m₂.frames.globals) :
    ((∃ result m₁', CallEnds program f arguments m₁ result m₁') ↔
      ∃ result m₂', CallEnds program f arguments m₂ result m₂') ∧
    ∀ result₁ result₂ m₁' m₂', CallEnds program f arguments m₁ result₁ m₁' →
      CallEnds program f arguments m₂ result₂ m₂' →
      result₁ = result₂ ∧ ∃ globals printed,
        m₁' = m₁.after globals printed ∧ m₂' = m₂.after globals printed := by
  simp only [callEnds_iff m₁, callEnds_iff m₂]
  rw [same]
  refine ⟨⟨?_, ?_⟩, ?_⟩
  · rintro ⟨result, -, mb, hmb, -⟩
    exact ⟨result, _, mb, hmb, rfl⟩
  · rintro ⟨result, -, mb, hmb, -⟩
    exact ⟨result, _, mb, hmb, rfl⟩
  · rintro result₁ result₂ _ _ ⟨mb₁, h₁, rfl⟩ ⟨mb₂, h₂, rfl⟩
    obtain ⟨hresult, rfl⟩ := h₁.unique h₂
    exact ⟨hresult, mb₁.frames.globals, mb₁.output, rfl, rfl⟩

/-- A recursive function that adds the numbers from its argument down to one to the global `x`. -/
def accumulate : FunDecl where
  name := "accumulate"
  parameters := [⟨"n", ⟨.int32, false⟩, .unlocated⟩]
  result := .int32
  body := .unresolved
    [.ifThenElse (.binary .eq (.name "n" .unlocated) (.number (.int32 0) "0" .unlocated) .unlocated)
        (.unresolved [.ret (some (.name "x" .unlocated)) .unlocated] .unlocated)
        (.unresolved [] .unlocated) .unlocated,
      .assign "x" (.binary .add (.name "x" .unlocated) (.name "n" .unlocated) .unlocated)
        .unlocated,
      .ret (some (.call (.name "accumulate" .unlocated) [.binary .sub (.name "n" .unlocated)
        (.number (.int32 1) "1" .unlocated) .unlocated] .unlocated)) .unlocated]
    .unlocated
  span := .unlocated

/-- The global `x` and the function that adds to it. -/
def accumulator : Program := ⟨[⟨"x", ⟨.int32, true⟩, none, .unlocated⟩], [accumulate]⟩

/-- A machine in the middle of a block of some caller that has variables `x` and `n` of its own. -/
def Machine.busy : Machine :=
  ⟨⟨[("x", .int32 0)], #[⟨1, [("x", .int32 7)]⟩, ⟨2, [("n", .bool true)]⟩]⟩, #["calling"]⟩

/-- The variables of the caller do not get in the way: the result is that of a call without any. -/
theorem accumulate_below_caller :
    (Machine.bare [("x", .int32 0)]).frames.globals = Machine.busy.frames.globals ∧
      CallEnds accumulator accumulate [.int32 3] .busy (.ok (.int32 6))
        (Machine.busy.after [("x", .int32 6)] #[]) := by
  refine ⟨rfl, ?_⟩
  obtain ⟨hends, hsame⟩ := @call_depends_on_globals_only accumulator accumulate [.int32 3]
    (.bare [("x", .int32 0)]) .busy rfl
  have hbare : CallEnds accumulator accumulate [.int32 3] (.bare [("x", .int32 0)])
      (.ok (.int32 6)) (.bare [("x", .int32 6)]) := ⟨20, rfl⟩
  obtain ⟨result, m', hbusy⟩ := hends.mp ⟨_, _, hbare⟩
  obtain ⟨rfl, globals, printed, hm, rfl⟩ := hsame _ _ _ _ hbare hbusy
  have hglobals : [("x", Value.int32 6)] = globals := congrArg (fun m => m.frames.globals) hm
  have hprinted : #[] = #[] ++ printed := congrArg Machine.output hm
  rw [Array.empty_append] at hprinted
  rw [hglobals, hprinted]
  exact hbusy

end TypedImp
