import TypedImp.Proofs.Places.Trees
import TypedImp.Proofs.Typing.Checking

/-!
# Where the errors of checking stand

Every error of checking is one of the first stage and stands at a span of the program.  Two of the
errors that checking can name are of the other stage: a declaration outside of any scope, and a
return outside of any function.  They never come up, because the scope in which a statement is
checked is always there, and behind every statement stands the function around it.

## Why failures are followed too

An error ends the checking of one definition only, and what this definition has added to the tree of
scopes stays there.  So the tree has to be known behind a failure as well as behind a success.

* `Blames`: a test whose error stands at a span with a property.
* `Check.Finds`, `Check.FindsApart`: the same for a check in a scope, with how the tree grew in
  either case.
* `typeOf_blames`, `checkStmt_finds`, `checkFunction_finds`: all parts of checking.
* `places_of_checkProgram`: whole programs.
-/

namespace TypedImp

/-! ## Tests -/

/-- The error of a test, if it has one, is of the first stage and stands at a span with a
property. -/
def Blames {α : Type} (P : Span → Prop) (x : Except Error α) : Prop :=
  ∀ e, x = .error e → e.At .compile P

namespace Blames

variable {α β : Type} {P : Span → Prop}

theorem ok (a : α) : Blames P (.ok a) := nofun

theorem error {e : Error} (h : e.At .compile P) : Blames P (.error (α := α) e) := by
  rintro _ ⟨⟩
  exact h

theorem bind {x : Except Error α} {f : α → Except Error β} (hx : Blames P x)
    (hf : ∀ a, Blames P (f a)) : Blames P (x >>= f) := by
  cases x with
  | error e => exact error (hx e rfl)
  | ok a => exact hf a

end Blames

section

variable {P : Span → Prop} {Γ : Context}

theorem arityError?_at {expected : Nat} {arguments : List Expr} {span : Span} {e : Error}
    (harguments : ∀ a ∈ arguments, a.AllSpans P) (hspan : P span)
    (h : arityError? expected arguments span = some e) : e.At .compile P := by
  unfold arityError? at h
  split at h
  · next extra hextra =>
    cases h
    exact ⟨rfl, (harguments extra (List.mem_of_getElem? hextra)).span, nofun⟩
  · split at h
    · cases h
      exact ⟨rfl, hspan, nofun⟩
    · cases h

mutual

theorem typeOf_blames : ∀ {e : Expr}, e.AllSpans P → Blames P (typeOf Γ e)
  | .number .., _ => .ok _
  | .string .., _ => .ok _
  | .bool .., _ => .ok _
  | .name name span, .name here => by
    rw [typeOf]
    cases Γ.resolve? name with
    | none => exact .error ⟨rfl, here, nofun⟩
    | some referent =>
      cases referent with
      | value type => exact .ok _
      | function signature => exact .error ⟨rfl, here, nofun⟩
      | builtin => exact .error ⟨rfl, here, nofun⟩
  | .unary op operand span, .unary inner here => by
    rw [typeOf]
    refine (typeOf_blames inner).bind fun t => ?_
    split
    · exact .ok _
    · exact .error ⟨rfl, here, nofun⟩
  | .binary op left right span, .binary first second here => by
    rw [typeOf]
    refine (typeOf_blames first).bind fun s => (typeOf_blames second).bind fun t => ?_
    split
    · exact .error ⟨rfl, second.span, nofun⟩
    · split
      · exact .ok _
      · exact .error ⟨rfl, here, nofun⟩
  | .call callee arguments span, .call called passed here => by
    rw [typeOf]
    split
    · exact (typeOf_blames called).bind fun t => .error ⟨rfl, called.span, nofun⟩
    · next name nameSpan hnamed =>
      have hname := called.named hnamed
      split
      · exact .error ⟨rfl, hname, nofun⟩
      · exact .error ⟨rfl, hname, nofun⟩
      · exact (checkEach_blames passed).bind fun _ => .ok _
      · split
        · next e harity => exact .error (arityError?_at passed here harity)
        · exact (checkArguments_blames _ passed).bind fun _ => .ok _

theorem checkArguments_blames : ∀ {arguments : List Expr} (parameters : List Ty),
    (∀ a ∈ arguments, a.AllSpans P) → Blames P (checkArguments Γ arguments parameters)
  | argument :: arguments, parameter :: parameters, h => by
    obtain ⟨hfirst, hrest⟩ := List.forall_mem_cons.mp h
    rw [checkArguments]
    refine (typeOf_blames hfirst).bind fun t => ?_
    split
    · exact .error ⟨rfl, hfirst.span, nofun⟩
    · exact checkArguments_blames parameters hrest
  | [], _, _ => by
    rw [checkArguments]
    · exact .ok ()
    · nofun
  | _ :: _, [], _ => by
    rw [checkArguments]
    · exact .ok ()
    · nofun

theorem checkEach_blames : ∀ {es : List Expr}, (∀ e ∈ es, e.AllSpans P) → Blames P (checkEach Γ es)
  | [], _ => .ok ()
  | e :: es, h => by
    obtain ⟨hfirst, hrest⟩ := List.forall_mem_cons.mp h
    rw [checkEach]
    exact (typeOf_blames hfirst).bind fun _ => checkEach_blames hrest

end

end

/-! ## Checks in a scope -/

open ScopeTree (Extends ExtendsAt)

/-- In a scope that is there, a check comes to a result with a property, or it finds an error of the
first stage at a span with a property.  Either way the tree has grown by whole scopes, and by
declarations in this scope. -/
def Check.Finds {α : Type} (id : Nat) (P : Span → Prop) (Q : α → Prop) (x : Check α)
    (t : ScopeTree) : Prop :=
  t.WellFormed → (t.get? id).isSome = true →
    match x t with
    | .ok a t' => ExtendsAt id t t' ∧ Q a
    | .error e t' => ExtendsAt id t t' ∧ e.At .compile P

namespace Check.Finds

variable {α β : Type} {id : Nat} {P : Span → Prop} {Q : α → Prop} {R : β → Prop} {t : ScopeTree}

theorem inScope {x : Check α}
    (h : t.WellFormed → (t.get? id).isSome = true → Finds id P Q x t) : Finds id P Q x t :=
  fun hwf hid => h hwf hid hwf hid

theorem get {f : ScopeTree → Check α} (h : Finds id P Q (f t) t) :
    Finds id P Q (MonadState.get >>= f) t := h

theorem pure {a : α} (h : Q a) : Finds id P Q (Pure.pure a) t :=
  fun hwf _ => ⟨(Extends.refl hwf).at id, h⟩

theorem throw {e : Error} (h : e.At .compile P) : Finds id P Q (MonadExcept.throw e) t :=
  fun hwf _ => ⟨(Extends.refl hwf).at id, h⟩

/-- A scope that is there stays there. -/
theorem isSome_of_extendsAt {t' : ScopeTree} (hid : (t.get? id).isSome = true)
    (h : ExtendsAt id t t') : (t'.get? id).isSome = true := by
  obtain ⟨scope, hscope⟩ := Option.isSome_iff_exists.mp hid
  obtain ⟨added, hadded⟩ := h.here scope hscope
  rw [hadded]
  rfl

/-- One check after the other. -/
theorem bind {x : Check α} {f : α → Check β} (hx : Finds id P Q x t)
    (hf : ∀ a t', ExtendsAt id t t' → Q a → Finds id P R (f a) t') :
    Finds id P R (x >>= f) t := by
  intro hwf hid
  have hfirst := hx hwf hid
  change match EStateM.bind x f t with | .ok a t' => _ | .error e t' => _
  unfold EStateM.bind
  cases hxt : x t with
  | error e t' =>
    rw [hxt] at hfirst
    exact hfirst
  | ok a t' =>
    rw [hxt] at hfirst
    obtain ⟨hextends, ha⟩ := hfirst
    have hrest := hf a t' hextends ha hextends.wellFormed (isSome_of_extendsAt hid hextends)
    dsimp only
    generalize f a t' = result at hrest ⊢
    cases result with
    | ok b t'' => exact ⟨hextends.trans hrest.1, hrest.2⟩
    | error e t'' => exact ⟨hextends.trans hrest.1, hrest.2⟩

/-- A test does not change the tree. -/
theorem ofExcept {r : Except Error α} (h : Blames P r) :
    Finds id P (fun a => r = .ok a) (Check.ofExcept r) t := by
  cases r with
  | ok a => exact pure rfl
  | error e => exact throw (h e rfl)

theorem typeIn {signatures : Signatures} {e : Expr} (h : e.AllSpans P) :
    Finds id P (fun _ => True) (Check.typeIn signatures id e) t := by
  have htest : Finds id P (fun _ => True)
      (Check.ofExcept (typeOf ⟨signatures, t, id⟩ e) >>= Pure.pure) t :=
    (ofExcept (typeOf_blames h)).bind fun _ _ _ _ => pure trivial
  rwa [bind_pure] at htest

/-- The scope is there, so a declaration only fails for a name that is taken. -/
theorem declare {b : Binding} {span : Span} (h : P span) :
    Finds id P (fun _ => True) (Check.declare id b span) t := by
  intro hwf hid
  have hrun : Check.declare id b span t =
      EStateM.bind (Check.ofExcept (t.declare id b span)) set t := rfl
  rw [hrun, EStateM.bind]
  cases hdeclare : t.declare id b span with
  | ok t' => exact ⟨ScopeTree.extendsAt_declare hwf hdeclare, trivial⟩
  | error e =>
    refine ⟨(Extends.refl hwf).at id, ?_⟩
    unfold ScopeTree.declare at hdeclare
    obtain ⟨scope, hscope⟩ := Option.isSome_iff_exists.mp hid
    rw [hscope] at hdeclare
    dsimp only at hdeclare
    split at hdeclare
    · cases hdeclare
      exact ⟨rfl, h, nofun⟩
    · cases hdeclare

end Check.Finds

/-- The same for a check that leaves all scopes of the tree as they were and only adds new ones. -/
def Check.FindsApart {α : Type} (P : Span → Prop) (Q : α → Prop) (x : Check α)
    (t : ScopeTree) : Prop :=
  match x t with
  | .ok a t' => Extends t t' ∧ Q a
  | .error e t' => Extends t t' ∧ e.At .compile P

namespace Check.FindsApart

variable {α : Type} {P : Span → Prop} {Q : α → Prop} {t : ScopeTree}

/-- What is checked in a new scope leaves the scope around it as it was. -/
theorem addScope {f : Nat → Check α} {parent : Nat} {result : Option Ty} (hwf : t.WellFormed)
    (hparent : parent ≤ t.size)
    (hf : Finds (t.size + 1) P Q (f (t.size + 1)) (t.add parent result)) :
    FindsApart P Q (Check.addScope parent result >>= f) t := by
  have hinner := hf (hwf.add hparent result) (by rw [ScopeTree.get?_add_new]; rfl)
  have hrun : (Check.addScope parent result >>= f) t = f (t.size + 1) (t.add parent result) := by
    rw [← ScopeTree.size_add t parent result]
    rfl
  unfold FindsApart
  rw [hrun]
  generalize f (t.size + 1) (t.add parent result) = outcome at hinner ⊢
  cases outcome with
  | ok a t' => exact ⟨hinner.1.extends_of_add, hinner.2⟩
  | error e t' => exact ⟨hinner.1.extends_of_add, hinner.2⟩

theorem finds {x : Check α} (h : FindsApart P Q x t) (id : Nat) : Finds id P Q x t := by
  intro _ _
  unfold FindsApart at h
  generalize x t = outcome at h ⊢
  cases outcome with
  | ok a t' => exact ⟨h.1.at id, h.2⟩
  | error e t' => exact ⟨h.1.at id, h.2⟩

end Check.FindsApart

open Check (Finds FindsApart)

section

variable {id : Nat} {P : Span → Prop} {signatures : Signatures} {t : ScopeTree}

/-! ## Statements without blocks -/

theorem settleType_blames {decl : VarDecl} {initializer : Option (Expr × Ty)} (hdecl : P decl.span)
    (hinitializer : ∀ e ∈ initializer, P e.1.span) : Blames P (settleType decl initializer) := by
  unfold settleType
  split
  · exact .error ⟨rfl, hdecl, nofun⟩
  · exact .ok _
  · exact .ok _
  · split
    · exact .error ⟨rfl, hinitializer _ rfl, nofun⟩
    · exact .ok _

theorem requireValues_blames {name : String} {ty : Ty} {span : Span} (h : P span) :
    Blames P (requireValues name ty span) := by
  unfold requireValues
  split
  · exact .ok ()
  · exact .error ⟨rfl, h, nofun⟩

theorem checkInitializer_finds {initializer : Option Expr}
    (h : ∀ e ∈ initializer, e.AllSpans P) :
    Finds id P (fun found => ∀ e ∈ found, P e.1.span)
      (checkInitializer signatures id initializer) t := by
  cases initializer with
  | none => exact .pure nofun
  | some e =>
    refine (Finds.typeIn (h e rfl)).bind fun ty _ _ _ => .pure ?_
    rintro _ ⟨⟩
    exact (h e rfl).span

theorem checkVarDecl_finds {decl : VarDecl} (h : decl.AllSpans P) :
    Finds id P (VarDecl.AllSpans P) (checkVarDecl signatures id decl) t := by
  unfold checkVarDecl
  refine (checkInitializer_finds h.initial).bind fun found _ _ hfound => ?_
  refine (Finds.ofExcept (settleType_blames h.here hfound)).bind fun ty _ _ _ => ?_
  refine (Finds.ofExcept (requireValues_blames h.here)).bind fun _ _ _ _ => ?_
  exact (Finds.declare h.here).bind fun _ _ _ _ => .pure ⟨h.initial, h.here⟩

theorem checkAgainst_finds {required : Ty} {e : Expr} (h : e.AllSpans P) :
    Finds id P (fun _ => True) (checkAgainst signatures id required e) t := by
  unfold checkAgainst
  refine (Finds.typeIn h).bind fun ty _ _ _ => ?_
  split
  · exact .throw ⟨rfl, h.span, nofun⟩
  · exact .pure trivial

theorem checkAssignment_finds {name : String} {value : Expr} {span : Span}
    (hvalue : value.AllSpans P) (hspan : P span) :
    Finds id P (fun _ => True) (checkAssignment signatures id name value span) t := by
  unfold checkAssignment
  refine .get ?_
  split
  · exact .throw ⟨rfl, hspan, nofun⟩
  · exact .throw ⟨rfl, hspan, nofun⟩
  · exact .throw ⟨rfl, hspan, nofun⟩
  · split
    · exact checkAgainst_finds hvalue
    · exact .throw ⟨rfl, hspan, nofun⟩

/-- A return in a function: there is a result to hold it against. -/
theorem checkReturn_finds {value : Option Expr} {span : Span}
    (hresult : (t.result? id).isSome = true) (hvalue : ∀ e ∈ value, e.AllSpans P)
    (hspan : P span) :
    Finds id P (fun _ => True) (checkReturn signatures id value span) t := by
  obtain ⟨required, hrequired⟩ := Option.isSome_iff_exists.mp hresult
  unfold checkReturn
  refine .get ?_
  rw [hrequired]
  cases value with
  | some e => exact checkAgainst_finds (hvalue e rfl)
  | none =>
    dsimp only
    split
    · exact .throw ⟨rfl, hspan, nofun⟩
    · exact .pure trivial

/-! ## Statements -/

/-- What has grown in a scope is still inside the same function. -/
theorem isSome_result?_of_extendsAt {t' : ScopeTree} (hwf : t.WellFormed)
    (hid : (t.get? id).isSome = true) (hresult : (t.result? id).isSome = true)
    (h : ExtendsAt id t t') : (t'.result? id).isSome = true := by
  obtain ⟨scope, hscope⟩ := Option.isSome_iff_exists.mp hid
  rwa [h.result?_eq hwf hscope]

/-- A block in a function is still in the function. -/
theorem isSome_result?_add (hwf : t.WellFormed) (hid : (t.get? id).isSome = true)
    (hresult : (t.result? id).isSome = true) :
    ((t.add id none).result? (t.size + 1)).isSome = true := by
  have hle := ((t.isSome_get?_iff id).mp hid).2
  rwa [ScopeTree.result?_add hwf hle, Option.none_or]

mutual

theorem checkStmt_finds : ∀ {s : Stmt} {id : Nat} {t : ScopeTree}, s.AllSpans P →
    (t.result? id).isSome = true → Finds id P (Stmt.AllSpans P) (checkStmt signatures id s) t
  | .call .., id, t, .call called here, _ => by
    rw [checkStmt]
    exact (Finds.typeIn called).bind fun _ _ _ _ => .pure (.call called here)
  | .define decl, id, t, .define defined, _ => by
    rw [checkStmt]
    exact (checkVarDecl_finds defined).bind fun _ _ _ hdecl => .pure (.define hdecl)
  | .assign .., id, t, .assign assigned here, _ => by
    rw [checkStmt]
    exact (checkAssignment_finds assigned here).bind fun _ _ _ _ => .pure (.assign assigned here)
  | .ret .., id, t, .ret returned here, hresult => by
    rw [checkStmt]
    exact (checkReturn_finds hresult returned here).bind fun _ _ _ _ => .pure (.ret returned here)
  | .ifThenElse condition thenBlock elseBlock span, id, t,
      .ifThenElse tested taken otherwise here, hresult => by
    refine .inScope fun hwf hid => ?_
    rw [checkStmt]
    refine (checkAgainst_finds tested).bind fun _ t₁ h₁ _ => ?_
    refine (checkBlock_finds taken (isSome_result?_of_extendsAt hwf hid hresult h₁)).bind
      fun thenBlock' t₂ h₂ hthen => ?_
    refine (checkBlock_finds otherwise
      (isSome_result?_of_extendsAt hwf hid hresult (h₁.trans h₂))).bind
      fun elseBlock' t₃ h₃ helse => .pure (.ifThenElse tested hthen helse here)
  | .whileDo condition body span, id, t, .whileDo tested repeated here, hresult => by
    refine .inScope fun hwf hid => ?_
    rw [checkStmt]
    refine (checkAgainst_finds tested).bind fun _ t₁ h₁ _ => ?_
    exact (checkBlock_finds repeated (isSome_result?_of_extendsAt hwf hid hresult h₁)).bind
      fun body' _ _ hbody => .pure (.whileDo tested hbody here)

theorem checkBlock_finds : ∀ {block : Block Stmt} {id : Nat} {t : ScopeTree},
    (∀ s ∈ block.body, s.AllSpans P) → (t.result? id).isSome = true →
    Finds id P (fun b => ∀ s ∈ b.body, Stmt.AllSpans P s) (checkBlock signatures id block) t
  | ⟨[], _, _⟩, id, t, _, _ => by
    rw [checkBlock]
    exact .pure nofun
  | ⟨s :: ss, _, span⟩, id, t, h, hresult => by
    obtain ⟨hfirst, hrest⟩ := List.forall_mem_cons.mp h
    refine .inScope fun hwf hid => ?_
    have hinner := isSome_result?_add hwf hid hresult
    rw [checkBlock]
    refine (FindsApart.addScope hwf ((t.isSome_get?_iff id).mp hid).2
      (.inScope fun hwf' hid' => ?_)).finds id
    refine (checkStmt_finds hfirst hinner).bind fun first t₁ h₁ hfirst' => ?_
    refine (checkBody_finds hrest (isSome_result?_of_extendsAt hwf' hid' hinner h₁)).bind
      fun rest _ _ hrest' => .pure (List.forall_mem_cons.mpr ⟨hfirst', hrest'⟩)

theorem checkBody_finds : ∀ {ss : List Stmt} {id : Nat} {t : ScopeTree},
    (∀ s ∈ ss, s.AllSpans P) → (t.result? id).isSome = true →
    Finds id P (fun ss => ∀ s ∈ ss, Stmt.AllSpans P s) (checkBody signatures id ss) t
  | [], id, t, _, _ => by
    rw [checkBody]
    exact .pure nofun
  | s :: ss, id, t, h, hresult => by
    obtain ⟨hfirst, hrest⟩ := List.forall_mem_cons.mp h
    refine .inScope fun hwf hid => ?_
    rw [checkBody]
    refine (checkStmt_finds hfirst hresult).bind fun first t₁ h₁ hfirst' => ?_
    exact (checkBody_finds hrest (isSome_result?_of_extendsAt hwf hid hresult h₁)).bind
      fun rest _ _ hrest' => .pure (List.forall_mem_cons.mpr ⟨hfirst', hrest'⟩)

end

/-! ## Functions and programs -/

theorem checkParameters_finds {parameters : List Parameter}
    (h : ∀ parameter ∈ parameters, P parameter.span) :
    Finds id P (fun _ => True) (checkParameters id parameters) t := by
  induction parameters generalizing t with
  | nil => exact .pure trivial
  | cons parameter parameters ih =>
    obtain ⟨hfirst, hrest⟩ := List.forall_mem_cons.mp h
    rw [checkParameters]
    refine (Finds.ofExcept (requireValues_blames hfirst)).bind fun _ _ _ _ => ?_
    exact (Finds.declare hfirst).bind fun _ _ _ _ => ih hrest

/-- However the checking of a function ends, the scopes that were there before are as they were. -/
theorem checkFunction_findsApart {f : FunDecl} (h : f.AllSpans P) (hwf : t.WellFormed)
    (hid : (t.get? ScopeTree.globalId).isSome = true) :
    FindsApart P (FunDecl.AllSpans P) (checkFunction signatures f) t := by
  have hglobal := ((t.isSome_get?_iff ScopeTree.globalId).mp hid).2
  unfold checkFunction
  refine .addScope hwf hglobal (.inScope fun hwf' hid' => ?_)
  have hresult : ((t.add ScopeTree.globalId (some f.result)).result? (t.size + 1)).isSome =
      true := by
    rw [ScopeTree.result?_add hwf hglobal]
    rfl
  refine (checkParameters_finds h.parameters).bind fun _ t₁ h₁ _ => ?_
  exact (checkBody_finds h.body (isSome_result?_of_extendsAt hwf' hid' hresult h₁)).bind
    fun body _ _ hbody => .pure ⟨h.parameters, hbody, h.here⟩

theorem checkFunction_finds {f : FunDecl} (h : f.AllSpans P) :
    Finds ScopeTree.globalId P (FunDecl.AllSpans P) (checkFunction signatures f) t :=
  .inScope fun hwf hid => (checkFunction_findsApart h hwf hid).finds ScopeTree.globalId

/-- The outcome of checking items one after the other, each of which finds its errors. -/
structure Collected.Finds {α : Type} (P : Span → Prop) (Q : α → Prop) (c : Collected α) :
    Prop where
  errors : ∀ e ∈ c.errors, e.At .compile P
  passed : ∀ a ∈ c.passed, Q a
  wellFormed : c.scopes.WellFormed
  globals : (c.scopes.get? ScopeTree.globalId).isSome = true

theorem collect_finds {α : Type} {Q : α → Prop} (check : α → Check α) (items : List α)
    (h : ∀ item ∈ items, ∀ t, Finds ScopeTree.globalId P Q (check item) t) {t : ScopeTree}
    (hwf : t.WellFormed) (hglobal : (t.get? ScopeTree.globalId).isSome = true) :
    (collect check items t).Finds P Q := by
  induction items generalizing t with
  | nil => exact ⟨nofun, nofun, hwf, hglobal⟩
  | cons item items ih =>
    obtain ⟨hitem, hitems⟩ := List.forall_mem_cons.mp h
    have hfirst := hitem t hwf hglobal
    rw [collect]
    cases hcheck : check item t with
    | ok passed t' =>
      rw [hcheck] at hfirst
      have hrest := ih hitems hfirst.1.wellFormed (Finds.isSome_of_extendsAt hglobal hfirst.1)
      exact ⟨hrest.errors, List.forall_mem_cons.mpr ⟨hfirst.2, hrest.passed⟩, hrest.wellFormed,
        hrest.globals⟩
    | error e t' =>
      rw [hcheck] at hfirst
      have hrest := ih hitems hfirst.1.wellFormed (Finds.isSome_of_extendsAt hglobal hfirst.1)
      exact ⟨List.forall_mem_cons.mpr ⟨hfirst.2, hrest.errors⟩, hrest.passed, hrest.wellFormed,
        hrest.globals⟩

theorem collectSignatures_finds {fs : List FunDecl} (h : ∀ f ∈ fs, f.AllSpans P)
    (signatures : Signatures) : ∀ e ∈ (collectSignatures fs signatures).1, e.At .compile P := by
  induction fs generalizing signatures with
  | nil => nofun
  | cons f fs ih =>
    obtain ⟨hfirst, hrest⟩ := List.forall_mem_cons.mp h
    rw [collectSignatures]
    split
    · exact List.forall_mem_cons.mpr ⟨⟨rfl, hfirst.here, nofun⟩, ih hrest signatures⟩
    · exact ih hrest _

/-- **Checking keeps to the spans of the program.**  A program that passes has spans with whatever
property the spans of the source have.  Otherwise there are errors, all of them of the first stage
and at spans of the program. -/
theorem places_of_checkProgram {p : Program} (h : p.AllSpans P) :
    match checkProgram p with
    | .ok c => c.program.AllSpans P
    | .error errors => errors ≠ [] ∧ ∀ e ∈ errors, e.At .compile P := by
  unfold checkProgram
  have hnames := collectSignatures_finds h.functions []
  generalize collectSignatures p.functions [] = collected at hnames ⊢
  obtain ⟨nameErrors, signatures⟩ := collected
  have hglobals := collect_finds (checkVarDecl signatures ScopeTree.globalId) p.globals
    (fun decl hdecl _ => checkVarDecl_finds (h.globals decl hdecl)) ScopeTree.wellFormed_initial rfl
  dsimp only
  generalize collect (checkVarDecl signatures ScopeTree.globalId) p.globals .initial = globals
    at hglobals ⊢
  have hfunctions := collect_finds (checkFunction signatures) p.functions
    (fun f hf _ => checkFunction_finds (h.functions f hf)) hglobals.wellFormed hglobals.globals
  generalize collect (checkFunction signatures) p.functions globals.scopes = functions
    at hfunctions ⊢
  split
  · next checked hchecked =>
    split at hchecked
    · cases hchecked
      exact ⟨hglobals.passed, hfunctions.passed⟩
    · cases hchecked
  · next errors herrors =>
    split at herrors
    · cases herrors
    · next hne =>
      cases herrors
      refine ⟨hne, List.forall_mem_append.mpr ⟨List.forall_mem_append.mpr ⟨hnames, ?_⟩, ?_⟩⟩
      · exact hglobals.errors
      · exact hfunctions.errors

end

end TypedImp
