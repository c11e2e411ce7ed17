import TypedImp.Proofs.Execution.Safety

/-!
# Safe runs

A run clears the frames, makes the globals in the order of the source and calls a function.  While
the globals are made, those that are left become fewer; when none is left, no variable can be
missing any more.

* `Layout.Awaits`: globals have been made up to some point.
* `safe_initGlobals`: making globals is safe.
* `safe_call_of_awaits_nil`: with all globals made, no variable is missing.
* `of_entry_eq_ok`, `stage_of_entry_eq_error`: whether a run begins at all.
* `safe_execute`, `run_cases`, `sound_record`, `lawful_record`: whole runs.
-/

namespace TypedImp

/-! ## Globals -/

/-- A moment at which the globals before the given ones have been made and nothing else. -/
structure Layout.Awaits (L : Layout) (program : Program) (decls : List VarDecl) : Prop where
  active_eq : L.active = FrameStack.globalId
  globals_eq : program.globalScope =
    (decls.map VarDecl.binding).reverse ++ L.declared FrameStack.globalId

section Globals

variable {signatures : Signatures} {program : Program} {L : Layout}

theorem Layout.awaits_initial (program : Program) :
    Layout.initial.Awaits program program.globals where
  active_eq := rfl
  globals_eq := (List.append_nil _).symm

/-- An initializer sees the globals that have been made, and none that is pending. -/
theorem Layout.Awaits.situated {decls : List VarDecl} (h : L.Awaits program decls) :
    Situated program (decls.map VarDecl.binding).reverse [] L
      [L.declared FrameStack.globalId] where
  globals_eq := h.globals_eq
  pending_later := List.nil_sublist _
  sees := by
    rw [h.active_eq]
    exact .globals

theorem Layout.Awaits.declare {decl : VarDecl} {decls : List VarDecl}
    (h : L.Awaits program (decl :: decls)) : (L.declare decl.binding).Awaits program decls where
  active_eq := h.active_eq
  globals_eq := by
    rw [h.globals_eq, List.map_cons, List.reverse_cons, List.append_assoc, ← h.active_eq,
      L.declared_declare_active]
    rfl

/-- The names of the globals to come are names of globals. -/
theorem Layout.Awaits.mem_globalScope {decls : List VarDecl} (h : L.Awaits program decls)
    {name : String} (hname : name ∈ (decls.map VarDecl.binding).reverse.map Binding.name) :
    name ∈ program.globalScope.map Binding.name := by
  rw [h.globals_eq, List.map_append]
  exact List.mem_append_left _ hname

/-- **Making globals is safe**, and leaves the rest of them to come. -/
theorem safe_initGlobals (typed : ProgramTyped signatures program) (fuel : Nat)
    {decls rest : List VarDecl} (h : L.Awaits program (decls ++ rest))
    (htyped : GlobalsTyped signatures (L.declared FrameStack.globalId) (decls ++ rest)) :
    Safe program (Excused program.globalScope True) L (Logged.initGlobals program fuel decls)
      fun _ L' => L'.Awaits program rest ∧
        GlobalsTyped signatures (L'.declared FrameStack.globalId) rest := by
  induction decls generalizing L with
  | nil => exact Safe.pure ⟨h, htyped⟩
  | cons decl decls ih =>
    rw [List.cons_append] at h htyped
    cases htyped with
    | cons head_typed tail_typed =>
      have hstart : Safe program (Excused program.globalScope True) L
          (Logged.startValue (Logged.evalExpr program fuel) decl)
          fun value L' => value.ty = decl.type.ty ∧ L' = L :=
        ((safeAt typed _ fuel).startValue h.situated head_typed).excuse
          fun _ hstop => hstop.widen fun _ hname => h.mem_globalScope hname
      have hdefine : Safe program (Excused program.globalScope True) L
          (Logged.define (Logged.evalExpr program fuel) decl)
          fun _ L' => L' = L.declare decl.binding := by
        refine Safe.bind hstart ?_
        rintro value _ - ⟨hvalue, rfl⟩
        exact Safe.bindVariable hvalue
      refine Safe.bind hdefine ?_
      rintro - _ - rfl
      refine ih h.declare ?_
      rw [← h.active_eq, L.declared_declare_active, h.active_eq]
      exact tail_typed

/-- With all globals made, no variable is missing in a call. -/
theorem safe_call_of_awaits_nil (typed : ProgramTyped signatures program) (fuel : Nat)
    (h : L.Awaits program []) {f : FunDecl} {arguments : List Value} (hf : f ∈ program.functions)
    (haccepts : f.Accepts arguments) :
    Safe program (Excused [] True) L (Logged.callFunction program fuel f arguments)
      fun value L' => value.ty = f.result ∧ L' = L :=
  (safeAt typed [] fuel).call h.globals_eq (by rw [h.active_eq]; exact Nat.le_refl 1) hf haccepts

/-- A machine whose frames have just been cleared. -/
def Machine.cleared (m : Machine) : Machine := { m with frames := .initial }

/-- The record at the beginning of a run. -/
def Record.cleared (m : Machine) : Record := ⟨m.cleared, []⟩

theorem Record.sound_cleared (program : Program) (m : Machine) :
    (Record.cleared m).Sound program .initial :=
  ⟨rfl, Layout.describes_initial, lawful_nil program⟩

/-- **The part of a run that happens in the frames is safe.** -/
theorem safe_execute (typed : ProgramTyped signatures program) (fuel : Nat) {f : FunDecl}
    {arguments : List Value} (hf : f ∈ program.functions) (haccepts : f.Accepts arguments)
    (m : Machine) :
    match Logged.execute program fuel f arguments ⟨m, []⟩ with
    | .ok value r => value.ty = f.result ∧ ∃ L, r.Sound program L
    | .error stop r => Excused program.globalScope True stop ∧ ∃ L, r.Sound program L := by
  have hawaits : Layout.initial.Awaits program (program.globals ++ []) := by
    rw [List.append_nil]
    exact Layout.awaits_initial program
  have htyped : GlobalsTyped signatures (Layout.initial.declared FrameStack.globalId)
      (program.globals ++ []) := by
    rw [List.append_nil]
    exact typed.globals
  have hsafe : Safe program (Excused program.globalScope True) .initial
      (do Logged.initGlobals program fuel program.globals
          Logged.callFunction program fuel f arguments) fun value _ => value.ty = f.result := by
    refine Safe.bind (safe_initGlobals typed fuel hawaits htyped) ?_
    rintro - L - ⟨hall, -⟩
    exact (safe_call_of_awaits_nil typed fuel hall hf haccepts).imp
      (fun _ hstop => hstop.widen fun _ hname => by cases hname) fun _ _ hpost => hpost.1
  have hrun := hsafe (.cleared m) (Record.sound_cleared program m)
  change match (do Logged.initGlobals program fuel program.globals
                   Logged.callFunction program fuel f arguments : Logged Value) (.cleared m) with
    | .ok value r => _
    | .error stop r => _
  generalize (do Logged.initGlobals program fuel program.globals
                 Logged.callFunction program fuel f arguments : Logged Value) (.cleared m) = res
    at hrun ⊢
  cases res with
  | ok value r =>
    obtain ⟨L, -, hty, hr⟩ := hrun
    exact ⟨hty, L, hr⟩
  | error stop r =>
    obtain ⟨hstop, L, -, hr⟩ := hrun
    exact ⟨hstop, L, hr⟩

end Globals

/-! ## Whole runs -/

/-- Arguments without an error fit the function. -/
theorem accepts_of_argumentError?_eq_none {f : FunDecl} {arguments : List Value}
    (h : argumentError? f arguments = none) : f.Accepts arguments := by
  unfold argumentError? at h
  dsimp only at h
  split at h
  · cases h
  · split at h
    · cases h
    · refine List.Forall₂.flip (List.forall₂_iff_zip.mpr ⟨by omega, ?_⟩)
      intro parameter argument hmem
      have hpair := List.findSome?_eq_none_iff.mp h (parameter, argument) hmem
      dsimp only at hpair
      split at hpair
      · cases hpair
      · next hty => exact not_not.mp hty

/-- A run begins only with a function of the program that accepts the arguments. -/
theorem of_entry_eq_ok {program : Program} {name : String} {arguments : List Value} {f : FunDecl}
    (h : entry program name arguments = .ok f) :
    program.function? name = some f ∧ f ∈ program.functions ∧ f.Accepts arguments := by
  unfold entry at h
  cases hf : program.function? name with
  | none => rw [hf] at h; cases h
  | some g =>
    rw [hf] at h
    dsimp only at h
    cases herror : argumentError? g arguments with
    | some e => rw [herror] at h; cases h
    | none =>
      rw [herror] at h
      obtain rfl : g = f := Except.ok.inj h
      exact ⟨rfl, List.mem_of_find?_eq_some hf, accepts_of_argumentError?_eq_none herror⟩

/-- What keeps a run from beginning could have been found by a look at the program. -/
theorem stage_of_entry_eq_error {program : Program} {name : String} {arguments : List Value}
    {e : Error} (h : entry program name arguments = .error e) : e.stage = .compile := by
  unfold entry at h
  split at h
  · cases h; rfl
  · next g _ =>
    split at h
    · next error herror =>
      cases h
      unfold argumentError? at herror
      dsimp only at herror
      split at herror
      · cases herror; rfl
      · split at herror
        · cases herror; rfl
        · obtain ⟨pair, -, hpair⟩ := List.exists_of_findSome?_eq_some herror
          split at hpair
          · cases hpair; rfl
          · cases hpair
    · cases h

/-- The faults of a well-typed program. -/
def Error.Unforeseen (e : Error) : Prop :=
  e.cause = .divisionByZero ∨ (∃ name, e.cause = .missingReturn name) ∨
    ∃ name, e.cause = .unboundVariable name

/-- How an excused stop shows in the end of a run. -/
theorem Excused.ending {later : List Binding} {condition : Prop} {stop : Stop}
    (h : Excused later condition stop) :
    Ending.ofStop stop = .exhausted ∨ ∃ e, Ending.ofStop stop = .faulted e ∧ e.Unforeseen := by
  cases h with
  | exhausted => exact Or.inl rfl
  | divisionByZero span => exact Or.inr ⟨_, rfl, Or.inl rfl⟩
  | missingReturn name span => exact Or.inr ⟨_, rfl, Or.inr (Or.inl ⟨name, rfl⟩)⟩
  | unbound span mem holds => exact Or.inr ⟨_, rfl, Or.inr (Or.inr ⟨_, rfl⟩)⟩

/-- **How a run can end.**  It does not begin, and then nothing has happened; or it gives a value of
the type that the function promises; or it meets one of the faults that types do not foresee; or it
would need more fuel. -/
theorem run_cases {signatures : Signatures} {program : Program}
    (typed : ProgramTyped signatures program) (fuel : Nat) (name : String) (arguments : List Value)
    (m : Machine) :
    (∃ e, m.run program fuel name arguments = (.rejected e, m) ∧
      entry program name arguments = .error e) ∨
    (∃ value m', m.run program fuel name arguments = (.returned value, m') ∧
      ∃ f, program.function? name = some f ∧ value.ty = f.result) ∨
    (∃ e m', m.run program fuel name arguments = (.faulted e, m') ∧ e.Unforeseen) ∨
    ∃ m', m.run program fuel name arguments = (.exhausted, m') := by
  unfold Machine.run
  cases hentry : entry program name arguments with
  | error e => exact Or.inl ⟨e, rfl, rfl⟩
  | ok f =>
    right
    obtain ⟨hname, hf, haccepts⟩ := of_entry_eq_ok hentry
    have hsafe := safe_execute typed fuel hf haccepts m
    have hforget := forget_execute program fuel f arguments ⟨m, []⟩
    dsimp only at hforget ⊢
    rw [← hforget]
    cases hres : Logged.execute program fuel f arguments ⟨m, []⟩ with
    | ok value r =>
      rw [hres] at hsafe
      exact Or.inl ⟨value, r.machine, rfl, f, hname, hsafe.1⟩
    | error stop r =>
      rw [hres] at hsafe
      right
      rcases hsafe.1.ending with hend | ⟨e, hend, hcause⟩
      · exact Or.inr ⟨r.machine, by rw [← hend]; rfl⟩
      · exact Or.inl ⟨e, r.machine, by rw [← hend]; rfl, hcause⟩

/-- **The record of a run that has begun is sound.** -/
theorem sound_record {signatures : Signatures} {program : Program}
    (typed : ProgramTyped signatures program) (fuel : Nat) {name : String} {arguments : List Value}
    {f : FunDecl} (hentry : entry program name arguments = .ok f) (m : Machine) :
    ∃ L, (m.record program fuel name arguments).2.Sound program L := by
  obtain ⟨-, hf, haccepts⟩ := of_entry_eq_ok hentry
  have hsafe := safe_execute typed fuel hf haccepts m
  unfold Machine.record
  rw [hentry]
  dsimp only
  cases hres : Logged.execute program fuel f arguments ⟨m, []⟩ with
  | ok value r =>
    rw [hres] at hsafe
    exact hsafe.2
  | error stop r =>
    rw [hres] at hsafe
    exact hsafe.2

/-- The history of a run is lawful, whether it has begun or not. -/
theorem lawful_record {signatures : Signatures} {program : Program}
    (typed : ProgramTyped signatures program) (fuel : Nat) (name : String) (arguments : List Value)
    (m : Machine) : Lawful program (m.record program fuel name arguments).2.events := by
  cases hentry : entry program name arguments with
  | error e =>
    unfold Machine.record
    rw [hentry]
    exact lawful_nil program
  | ok f =>
    obtain ⟨L, hsound⟩ := sound_record typed fuel hentry m
    exact hsound.lawful

end TypedImp
