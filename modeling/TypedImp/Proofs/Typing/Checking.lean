import TypedImp.Proofs.Typing.ScopeTree

/-!
# What passes checking is well typed

Every part of checking is read backwards: from the fact that it ended without an error follow the
premises of a typing rule.  A statement is checked in a tree that grows, so besides the rule each
part also says how the tree grew, and with it what can be seen behind the statement.

* `Check.bind_eq_ok`: two parts of a check, one after the other.
* `hasType_of_typeOf`: expressions.
* `stmtTyped_of_checkStmt`, `bodyTyped_of_checkBody`: statements.
* `FunChecked`, `funChecked_of_checkFunction`: functions.
* `programTyped_of_checkProgram`: programs.
-/

namespace TypedImp

namespace Check

variable {α β : Type}

/-! ## Parts of a check -/

theorem bind_eq_ok {x : Check α} {f : α → Check β} {t t'' : ScopeTree} {b : β}
    (h : (x >>= f) t = .ok b t'') : ∃ a t', x t = .ok a t' ∧ f a t' = .ok b t'' := by
  change EStateM.bind x f t = .ok b t'' at h
  unfold EStateM.bind at h
  cases hx : x t with
  | ok a t' => rw [hx] at h; exact ⟨a, t', rfl, h⟩
  | error e t' => rw [hx] at h; cases h

theorem pure_eq_ok {a b : α} {t t' : ScopeTree} (h : (pure a : Check α) t = .ok b t') :
    b = a ∧ t' = t := by
  cases h
  exact ⟨rfl, rfl⟩

theorem ofExcept_eq_ok {r : Except Error α} {a : α} {t t' : ScopeTree}
    (h : ofExcept r t = .ok a t') : r = .ok a ∧ t' = t := by
  cases r with
  | ok b => cases h; exact ⟨rfl, rfl⟩
  | error e => cases h

theorem typeIn_eq_ok {signatures : Signatures} {id : Nat} {e : Expr} {t t' : ScopeTree} {ty : Ty}
    (h : typeIn signatures id e t = .ok ty t') :
    typeOf ⟨signatures, t, id⟩ e = .ok ty ∧ t' = t :=
  ofExcept_eq_ok (r := typeOf ⟨signatures, t, id⟩ e) h

theorem declare_eq_ok {id : Nat} {b : Binding} {span : Span} {t t' : ScopeTree} {u : Unit}
    (h : declare id b span t = .ok u t') : t.declare id b span = .ok t' := by
  obtain ⟨t₁, t₂, hget, hrest⟩ := bind_eq_ok h
  cases hget
  obtain ⟨t₃, t₄, hdeclare, hset⟩ := bind_eq_ok hrest
  obtain ⟨hdeclared, rfl⟩ := ofExcept_eq_ok hdeclare
  cases hset
  exact hdeclared

theorem addScope_eq_ok {parent : Nat} {result : Option Ty} {t t' : ScopeTree} {id : Nat}
    (h : addScope parent result t = .ok id t') : id = t.size + 1 ∧ t' = t.add parent result := by
  obtain ⟨u, t₁, hmodify, hrest⟩ := bind_eq_ok h
  cases hmodify
  obtain ⟨t₂, t₃, hget, hpure⟩ := bind_eq_ok hrest
  cases hget
  cases hpure
  exact ⟨ScopeTree.size_add t parent result, rfl⟩

end Check

/-! ## Expressions -/

namespace Context

/-- The declarations that can be seen in a context. -/
def visible (Γ : Context) : Visible := Γ.scopes.visible Γ.scope

/-- The meaning of a name, by the three places that it is looked up in. -/
theorem resolve?_eq (Γ : Context) (h : Γ.scopes.WellFormed) (name : String) :
    Γ.resolve? name =
      match Γ.visible.lookup? name with
      | some b => some (.value b.type)
      | none =>
        match Γ.signatures.get? name with
        | some signature => some (.function signature)
        | none => if name = Builtin.print then some .builtin else none := by
  have hlookup : Γ.scopes.lookup? Γ.scope name = Γ.visible.lookup? name :=
    ScopeTree.lookup?_eq_visible h Γ.scope name
  unfold resolve?
  exact hlookup ▸ rfl

theorem resolve?_value {Γ : Context} (h : Γ.scopes.WellFormed) {name : String} {type : BindingTy}
    (hr : Γ.resolve? name = some (.value type)) :
    ∃ b, Γ.visible.lookup? name = some b ∧ b.type = type := by
  rw [resolve?_eq Γ h] at hr
  split at hr
  · next b hb => cases hr; exact ⟨b, hb, rfl⟩
  · split at hr
    · cases hr
    · split at hr <;> cases hr

theorem resolve?_function {Γ : Context} (h : Γ.scopes.WellFormed) {name : String}
    {signature : Signature} (hr : Γ.resolve? name = some (.function signature)) :
    Γ.visible.lookup? name = none ∧ Γ.signatures.get? name = some signature := by
  rw [resolve?_eq Γ h] at hr
  split at hr
  · cases hr
  · next hnone =>
    split at hr
    · next s hs => cases hr; exact ⟨hnone, hs⟩
    · split at hr <;> cases hr

theorem resolve?_builtin {Γ : Context} (h : Γ.scopes.WellFormed) {name : String}
    (hr : Γ.resolve? name = some .builtin) :
    Γ.visible.lookup? name = none ∧ Γ.signatures.get? name = none ∧ name = Builtin.print := by
  rw [resolve?_eq Γ h] at hr
  split at hr
  · cases hr
  · next hnone =>
    split at hr
    · cases hr
    · next hs =>
      split at hr
      · next hp => exact ⟨hnone, hs, hp⟩
      · cases hr

end Context

/-- Of two computations in a row, both end well or neither. -/
theorem Error.exists_of_bind_eq_ok {α β : Type} {x : Except Error α} {f : α → Except Error β}
    {b : β} (h : (x >>= f) = .ok b) : ∃ a, x = .ok a ∧ f a = .ok b :=
  match x, h with
  | .ok a, h => ⟨a, rfl, h⟩

theorem Expr.eq_name_of_named? {e : Expr} {name : String} {span : Span}
    (h : e.named? = some (name, span)) : e = .name name span := by
  cases e with
  | name n s => cases h; rfl
  | _ => cases h

/-- Without an error there are as many arguments as expected. -/
theorem length_eq_of_arityError? {expected : Nat} {arguments : List Expr} {span : Span}
    (h : arityError? expected arguments span = none) : arguments.length = expected := by
  unfold arityError? at h
  split at h
  · cases h
  · next hextra =>
    have hle := List.getElem?_eq_none_iff.mp hextra
    split at h
    · cases h
    · next hlt => omega

section Expressions

variable {Γ : Context}

mutual

/-- An expression with a type has it by the rules. -/
theorem hasType_of_typeOf (wf : Γ.scopes.WellFormed) :
    ∀ (e : Expr) (t : Ty), typeOf Γ e = .ok t → HasType Γ.signatures Γ.visible e t
  | .number value text span, t, h => by
    simp only [typeOf] at h
    cases h
    exact .number value text span
  | .string value span, t, h => by
    simp only [typeOf] at h
    cases h
    exact .string value span
  | .bool value span, t, h => by
    simp only [typeOf] at h
    cases h
    exact .bool value span
  | .name name span, t, h => by
    simp only [typeOf] at h
    split at h
    · next type hr =>
      cases h
      obtain ⟨b, hb, rfl⟩ := Context.resolve?_value wf hr
      exact .name span hb
    · cases h
    · cases h
    · cases h
  | .unary op operand span, t, h => by
    simp only [typeOf] at h
    obtain ⟨s, hs, hrest⟩ := Error.exists_of_bind_eq_ok h
    split at hrest
    · next haccepts =>
      cases hrest
      exact .unary span (hasType_of_typeOf wf operand t hs) haccepts
    · cases hrest
  | .binary op left right span, t, h => by
    simp only [typeOf] at h
    obtain ⟨s, hs, hright⟩ := Error.exists_of_bind_eq_ok h
    obtain ⟨s', hs', hrest⟩ := Error.exists_of_bind_eq_ok hright
    split at hrest
    · cases hrest
    · next hne =>
      obtain rfl : s = s' := Decidable.not_not.mp hne
      split at hrest
      · next haccepts =>
        cases hrest
        exact .binary span (hasType_of_typeOf wf left s hs) (hasType_of_typeOf wf right s hs')
          haccepts
      · cases hrest
  | .call callee arguments span, t, h => by
    simp only [typeOf] at h
    split at h
    · -- something that is not a name is never called
      obtain ⟨s, -, hthrow⟩ := Error.exists_of_bind_eq_ok h
      cases hthrow
    · next name nameSpan hn =>
      obtain rfl := Expr.eq_name_of_named? hn
      split at h
      · cases h
      · cases h
      · next hr =>
        obtain ⟨u, hu, hpure⟩ := Error.exists_of_bind_eq_ok h
        cases hpure
        obtain ⟨hunseen, hunknown, rfl⟩ := Context.resolve?_builtin wf hr
        obtain ⟨types, htypes⟩ := hasTypes_of_checkEach wf arguments hu
        exact .print nameSpan span hunseen hunknown htypes
      · next signature hr =>
        obtain ⟨hunseen, hknown⟩ := Context.resolve?_function wf hr
        split at h
        · cases h
        · next harity =>
          obtain ⟨u, hu, hpure⟩ := Error.exists_of_bind_eq_ok h
          cases hpure
          exact .call nameSpan span hunseen hknown (hasTypes_of_checkArguments wf arguments
            signature.parameters (length_eq_of_arityError? harity) hu)

/-- Arguments that fit the parameters, pair by pair. -/
theorem hasTypes_of_checkArguments (wf : Γ.scopes.WellFormed) :
    ∀ (es : List Expr) (ts : List Ty), es.length = ts.length → ∀ {u : Unit},
      checkArguments Γ es ts = .ok u → List.Forall₂ (HasType Γ.signatures Γ.visible) es ts
  | [], [], _, _, _ => .nil
  | [], _ :: _, hlen, _, _ => by cases hlen
  | _ :: _, [], hlen, _, _ => by cases hlen
  | e :: es, s :: ts, hlen, u, h => by
    simp only [checkArguments] at h
    obtain ⟨s', hs', hrest⟩ := Error.exists_of_bind_eq_ok h
    split at hrest
    · cases hrest
    · next hne =>
      obtain rfl : s' = s := Decidable.not_not.mp hne
      exact .cons (hasType_of_typeOf wf e s' hs')
        (hasTypes_of_checkArguments wf es ts (Nat.succ.inj hlen) hrest)

/-- Expressions of whatever types. -/
theorem hasTypes_of_checkEach (wf : Γ.scopes.WellFormed) :
    ∀ (es : List Expr) {u : Unit}, checkEach Γ es = .ok u →
      ∃ ts, List.Forall₂ (HasType Γ.signatures Γ.visible) es ts
  | [], _, _ => ⟨[], .nil⟩
  | e :: es, u, h => by
    simp only [checkEach] at h
    obtain ⟨s, hs, hrest⟩ := Error.exists_of_bind_eq_ok h
    obtain ⟨ts, hts⟩ := hasTypes_of_checkEach wf es hrest
    exact ⟨s :: ts, .cons (hasType_of_typeOf wf e s hs) hts⟩

end

end Expressions

theorem hasType_of_typeIn {signatures : Signatures} {id : Nat} {e : Expr} {t t' : ScopeTree}
    {ty : Ty} (wf : t.WellFormed) (h : Check.typeIn signatures id e t = .ok ty t') :
    HasType signatures (t.visible id) e ty ∧ t' = t := by
  obtain ⟨h, rfl⟩ := Check.typeIn_eq_ok h
  exact ⟨hasType_of_typeOf (Γ := ⟨signatures, t', id⟩) wf e ty h, rfl⟩

/-! ## Statements without blocks -/

section Statements

variable {signatures : Signatures} {id : Nat} {t t' : ScopeTree}

/-- Without an initializer a type has to be written. -/
theorem settleType_none (decl : VarDecl) :
    settleType decl none = if decl.type.ty = .deduced then
      .error ⟨.initializerRequired decl.name, decl.span⟩ else .ok decl.type.ty := by
  unfold settleType
  split
  · next hdeduced _ => rw [if_pos hdeduced]
  · next hinit => cases hinit
  · next hwritten => rw [if_neg hwritten]
  · next hinit _ => cases hinit

/-- With an initializer the placeholder stands for its type, and a type that is written has to be
its type. -/
theorem settleType_some (decl : VarDecl) (e : Expr) (t : Ty) :
    settleType decl (some (e, t)) = if decl.type.ty = .deduced then .ok t
      else if decl.type.ty ≠ t then .error (mismatch decl.type.ty t e.span)
      else .ok decl.type.ty := by
  unfold settleType
  split
  · next hinit => cases hinit
  · next hdeduced hinit =>
    cases hinit
    rw [if_pos hdeduced]
  · next hinit _ => cases hinit
  · next hinit hwritten =>
    cases hinit
    rw [if_neg hwritten]

/-- Whatever is written as its type, a variable gets the type of its initializer. -/
theorem eq_of_settleType {decl : VarDecl} {e : Expr} {s ty : Ty}
    (h : settleType decl (some (e, s)) = .ok ty) : ty = s := by
  rw [settleType_some] at h
  split at h
  · cases h
    rfl
  · split at h
    · cases h
    · next hne =>
      cases h
      exact Decidable.not_not.mp hne

theorem checkInitializer_eq_ok {init : Option Expr} {r : Option (Expr × Ty)} (wf : t.WellFormed)
    (h : checkInitializer signatures id init t = .ok r t') :
    t' = t ∧ ∀ e, init = some e →
      ∃ ty, r = some (e, ty) ∧ HasType signatures (t.visible id) e ty := by
  cases init with
  | none =>
    obtain ⟨-, rfl⟩ := Check.pure_eq_ok h
    exact ⟨rfl, fun e he => by cases he⟩
  | some e =>
    obtain ⟨ty, t₁, htype, hpure⟩ := Check.bind_eq_ok h
    obtain ⟨hty, rfl⟩ := hasType_of_typeIn wf htype
    obtain ⟨rfl, rfl⟩ := Check.pure_eq_ok hpure
    exact ⟨rfl, fun e' he => by cases he; exact ⟨ty, rfl, hty⟩⟩

/-- A variable that passes is well typed where it stands, and is declared behind it. -/
theorem varTyped_of_checkVarDecl {decl decl' : VarDecl} (wf : t.WellFormed)
    (h : checkVarDecl signatures id decl t = .ok decl' t') :
    VarTyped signatures (t.visible id) decl' ∧ t.declare id decl'.binding decl.span = .ok t' := by
  obtain ⟨init, t₁, hinit, h₁⟩ := Check.bind_eq_ok h
  obtain ⟨ty, t₂, hsettle, h₂⟩ := Check.bind_eq_ok h₁
  obtain ⟨u, t₃, hvalues, h₃⟩ := Check.bind_eq_ok h₂
  obtain ⟨u', t₄, hdeclare, hpure⟩ := Check.bind_eq_ok h₃
  obtain ⟨rfl, hinitial⟩ := checkInitializer_eq_ok wf hinit
  obtain ⟨hsettled, rfl⟩ := Check.ofExcept_eq_ok hsettle
  obtain ⟨hrequired, rfl⟩ := Check.ofExcept_eq_ok hvalues
  obtain ⟨rfl, rfl⟩ := Check.pure_eq_ok hpure
  refine ⟨⟨fun e he => ?_, ?_⟩, Check.declare_eq_ok hdeclare⟩
  · obtain ⟨s, rfl, hs⟩ := hinitial e he
    obtain rfl := eq_of_settleType hsettled
    exact hs
  · unfold requireValues at hrequired
    split at hrequired
    · next hv => exact hv
    · cases hrequired

theorem hasType_of_checkAgainst {required : Ty} {e : Expr} {u : Unit} (wf : t.WellFormed)
    (h : checkAgainst signatures id required e t = .ok u t') :
    HasType signatures (t.visible id) e required ∧ t' = t := by
  obtain ⟨ty, t₁, htype, hrest⟩ := Check.bind_eq_ok h
  obtain ⟨hty, rfl⟩ := hasType_of_typeIn wf htype
  split at hrest
  · cases hrest
  · next hne =>
    obtain rfl := Decidable.not_not.mp hne
    obtain ⟨-, rfl⟩ := Check.pure_eq_ok hrest
    exact ⟨hty, rfl⟩

theorem stmtTyped_of_checkAssignment {ret : Ty} {name : String} {value : Expr} {span : Span}
    {u : Unit} (wf : t.WellFormed)
    (h : checkAssignment signatures id name value span t = .ok u t') :
    StmtTyped signatures ret (t.visible id) (.assign name value span) (t.visible id) ∧ t' = t := by
  obtain ⟨t₁, t₂, hget, hrest⟩ := Check.bind_eq_ok h
  cases hget
  cases hr : (⟨signatures, t, id⟩ : Context).resolve? name with
  | none => rw [hr] at hrest; cases hrest
  | some referent =>
    rw [hr] at hrest
    cases referent with
    | function signature => cases hrest
    | builtin => cases hrest
    | value type =>
      obtain ⟨b, hb, rfl⟩ := Context.resolve?_value wf hr
      simp only at hrest
      split at hrest
      · next hmutable =>
        obtain ⟨hty, rfl⟩ := hasType_of_checkAgainst wf hrest
        exact ⟨.assign span hb hmutable hty, rfl⟩
      · cases hrest

theorem stmtTyped_of_checkReturn {ret : Ty} {value : Option Expr} {span : Span} {u : Unit}
    (wf : t.WellFormed) (hret : t.result? id = some ret)
    (h : checkReturn signatures id value span t = .ok u t') :
    StmtTyped signatures ret (t.visible id) (.ret value span) (t.visible id) ∧ t' = t := by
  obtain ⟨t₁, t₂, hget, hrest⟩ := Check.bind_eq_ok h
  cases hget
  rw [hret] at hrest
  cases value with
  | some e =>
    obtain ⟨hty, rfl⟩ := hasType_of_checkAgainst wf hrest
    exact ⟨.ret span hty, rfl⟩
  | none =>
    simp only at hrest
    split at hrest
    · cases hrest
    · next hne =>
      obtain ⟨-, rfl⟩ := Check.pure_eq_ok hrest
      exact ⟨.retVoid span (Decidable.not_not.mp hne), rfl⟩

end Statements

/-! ## Statements and blocks

The induction is on the syntax.  A nested block is checked in a scope of its own, so behind it the
tree has only grown by whole scopes and the scope around it sees what it saw before. -/

section Blocks

variable {signatures : Signatures} {ret : Ty}

mutual

theorem stmtTyped_of_checkStmt : ∀ (s : Stmt) {id : Nat} {t t' : ScopeTree} {s' : Stmt}
    {scope : Scope}, t.WellFormed → t.get? id = some scope → t.result? id = some ret →
    checkStmt signatures id s t = .ok s' t' →
    ScopeTree.ExtendsAt id t t' ∧ StmtTyped signatures ret (t.visible id) s' (t'.visible id)
  | .call callee arguments callSpan span, id, t, t', s', scope, wf, hs, hret, h => by
    simp only [checkStmt] at h
    obtain ⟨ty, t₁, htype, hpure⟩ := Check.bind_eq_ok h
    obtain ⟨hty, rfl⟩ := hasType_of_typeIn wf htype
    obtain ⟨rfl, rfl⟩ := Check.pure_eq_ok hpure
    exact ⟨(ScopeTree.Extends.refl wf).at id, .call span hty⟩
  | .define decl, id, t, t', s', scope, wf, hs, hret, h => by
    simp only [checkStmt] at h
    obtain ⟨decl', t₁, hdecl, hpure⟩ := Check.bind_eq_ok h
    obtain ⟨hty, hdeclare⟩ := varTyped_of_checkVarDecl wf hdecl
    obtain ⟨rfl, rfl⟩ := Check.pure_eq_ok hpure
    obtain ⟨inner, outer, hbefore, hafter⟩ := ScopeTree.visible_declare wf hdeclare
    refine ⟨ScopeTree.extendsAt_declare wf hdeclare, ?_⟩
    rw [hbefore] at hty ⊢
    rw [hafter]
    exact .define hty
  | .assign name value span, id, t, t', s', scope, wf, hs, hret, h => by
    simp only [checkStmt] at h
    obtain ⟨u, t₁, hassign, hpure⟩ := Check.bind_eq_ok h
    obtain ⟨hty, rfl⟩ := stmtTyped_of_checkAssignment wf hassign
    obtain ⟨rfl, rfl⟩ := Check.pure_eq_ok hpure
    exact ⟨(ScopeTree.Extends.refl wf).at id, hty⟩
  | .ret value span, id, t, t', s', scope, wf, hs, hret, h => by
    simp only [checkStmt] at h
    obtain ⟨u, t₁, hreturn, hpure⟩ := Check.bind_eq_ok h
    obtain ⟨hty, rfl⟩ := stmtTyped_of_checkReturn wf hret hreturn
    obtain ⟨rfl, rfl⟩ := Check.pure_eq_ok hpure
    exact ⟨(ScopeTree.Extends.refl wf).at id, hty⟩
  | .ifThenElse condition thenBlock elseBlock span, id, t, t', s', scope, wf, hs, hret, h => by
    simp only [checkStmt] at h
    obtain ⟨u, t₁, hcondition, hrest⟩ := Check.bind_eq_ok h
    obtain ⟨hcondition, rfl⟩ := hasType_of_checkAgainst wf hcondition
    obtain ⟨thenBlock', t₂, hthen, hrest⟩ := Check.bind_eq_ok hrest
    obtain ⟨elseBlock', t₃, helse, hpure⟩ := Check.bind_eq_ok hrest
    obtain ⟨rfl, rfl⟩ := Check.pure_eq_ok hpure
    have hid := ScopeTree.le_size_of_get? hs
    obtain ⟨hext, thenEnd, hthen⟩ := bodyTyped_of_checkBlock thenBlock wf hs hret hthen
    have hs₂ := (hext.get?_eq id hid).trans hs
    have hret₂ := (hext.result?_eq wf hid).trans hret
    obtain ⟨hext', elseEnd, helse⟩ :=
      bodyTyped_of_checkBlock elseBlock hext.wellFormed hs₂ hret₂ helse
    rw [hext.visible_eq wf hid] at helse
    refine ⟨(hext.trans hext').at id, ?_⟩
    rw [(hext.trans hext').visible_eq wf hid]
    exact .ifThenElse span hcondition hthen helse
  | .whileDo condition body span, id, t, t', s', scope, wf, hs, hret, h => by
    simp only [checkStmt] at h
    obtain ⟨u, t₁, hcondition, hrest⟩ := Check.bind_eq_ok h
    obtain ⟨hcondition, rfl⟩ := hasType_of_checkAgainst wf hcondition
    obtain ⟨body', t₂, hbody, hpure⟩ := Check.bind_eq_ok hrest
    obtain ⟨rfl, rfl⟩ := Check.pure_eq_ok hpure
    have hid := ScopeTree.le_size_of_get? hs
    obtain ⟨hext, bodyEnd, hbody⟩ := bodyTyped_of_checkBlock body wf hs hret hbody
    refine ⟨hext.at id, ?_⟩
    rw [hext.visible_eq wf hid]
    exact .whileDo span hcondition hbody

theorem bodyTyped_of_checkBlock : ∀ (b : Block Stmt) {id : Nat} {t t' : ScopeTree}
    {b' : Block Stmt} {scope : Scope}, t.WellFormed → t.get? id = some scope →
    t.result? id = some ret → checkBlock signatures id b t = .ok b' t' →
    ScopeTree.Extends t t' ∧
      ∃ last, BodyTyped signatures ret ([] :: t.visible id) b'.body last
  | ⟨[], number, span⟩, id, t, t', b', scope, wf, hs, hret, h => by
    simp only [checkBlock] at h
    obtain ⟨rfl, rfl⟩ := Check.pure_eq_ok h
    exact ⟨ScopeTree.Extends.refl wf, _, .nil _⟩
  | ⟨s :: ss, number, span⟩, id, t, t', b', scope, wf, hs, hret, h => by
    simp only [checkBlock] at h
    obtain ⟨new, t₁, hadd, hrest⟩ := Check.bind_eq_ok h
    obtain ⟨rfl, rfl⟩ := Check.addScope_eq_ok hadd
    obtain ⟨first, t₂, hfirst, hrest⟩ := Check.bind_eq_ok hrest
    obtain ⟨rest, t₃, hss, hpure⟩ := Check.bind_eq_ok hrest
    obtain ⟨rfl, rfl⟩ := Check.pure_eq_ok hpure
    have hid := ScopeTree.le_size_of_get? hs
    have wf₁ := wf.add hid none
    have hs₁ := ScopeTree.get?_add_new t id none
    have hret₁ : (t.add id none).result? (t.size + 1) = some ret := by
      rw [ScopeTree.result?_add wf hid, hret]
      rfl
    obtain ⟨hext, hfirst⟩ := stmtTyped_of_checkStmt s wf₁ hs₁ hret₁ hfirst
    obtain ⟨added, hs₂⟩ := hext.here _ hs₁
    have hret₂ := (hext.result?_eq wf₁ hs₁).trans hret₁
    obtain ⟨hext', hrest⟩ := bodyTyped_of_checkBody ss hext.wellFormed hs₂ hret₂ hss
    rw [ScopeTree.visible_add wf hid] at hfirst
    exact ⟨(hext.trans hext').extends_of_add, t'.visible (t.size + 1), .cons hfirst hrest⟩

theorem bodyTyped_of_checkBody : ∀ (ss : List Stmt) {id : Nat} {t t' : ScopeTree}
    {ss' : List Stmt} {scope : Scope}, t.WellFormed → t.get? id = some scope →
    t.result? id = some ret → checkBody signatures id ss t = .ok ss' t' →
    ScopeTree.ExtendsAt id t t' ∧ BodyTyped signatures ret (t.visible id) ss' (t'.visible id)
  | [], id, t, t', ss', scope, wf, hs, hret, h => by
    simp only [checkBody] at h
    obtain ⟨rfl, rfl⟩ := Check.pure_eq_ok h
    exact ⟨(ScopeTree.Extends.refl wf).at id, .nil _⟩
  | s :: ss, id, t, t', ss', scope, wf, hs, hret, h => by
    simp only [checkBody] at h
    obtain ⟨first, t₁, hfirst, hrest⟩ := Check.bind_eq_ok h
    obtain ⟨rest, t₂, hss, hpure⟩ := Check.bind_eq_ok hrest
    obtain ⟨rfl, rfl⟩ := Check.pure_eq_ok hpure
    obtain ⟨hext, hfirst⟩ := stmtTyped_of_checkStmt s wf hs hret hfirst
    obtain ⟨added, hs₁⟩ := hext.here _ hs
    have hret₁ := (hext.result?_eq wf hs).trans hret
    obtain ⟨hext', hrest⟩ := bodyTyped_of_checkBody ss hext.wellFormed hs₁ hret₁ hss
    exact ⟨hext.trans hext', .cons hfirst hrest⟩

end

end Blocks

/-! ## Functions -/

/-- The parameters of a function are declared in order, each in front of those before it. -/
theorem visible_of_checkParameters {id : Nat} : ∀ (ps : List Parameter) {t t' : ScopeTree}
    {scope : List Binding} {outer : Visible} {u : Unit}, t.WellFormed →
    t.visible id = scope :: outer → checkParameters id ps t = .ok u t' →
    ScopeTree.ExtendsAt id t t' ∧
      t'.visible id = ((ps.map Parameter.binding).reverse ++ scope) :: outer
  | [], t, t', scope, outer, u, wf, hv, h => by
    obtain ⟨-, rfl⟩ := Check.pure_eq_ok h
    exact ⟨(ScopeTree.Extends.refl wf).at id, hv⟩
  | p :: ps, t, t', scope, outer, u, wf, hv, h => by
    simp only [checkParameters] at h
    obtain ⟨u₁, t₁, hvalues, h₁⟩ := Check.bind_eq_ok h
    obtain ⟨u₂, t₂, hdeclare, hrest⟩ := Check.bind_eq_ok h₁
    obtain ⟨-, rfl⟩ := Check.ofExcept_eq_ok hvalues
    have hdeclared := Check.declare_eq_ok hdeclare
    obtain ⟨scope₁, outer₁, hbefore, hafter⟩ := ScopeTree.visible_declare wf hdeclared
    rw [hv] at hbefore
    obtain ⟨rfl, rfl⟩ := List.cons.inj hbefore
    obtain ⟨hext, hend⟩ := visible_of_checkParameters ps (wf.declare hdeclared) hafter hrest
    refine ⟨(ScopeTree.extendsAt_declare wf hdeclared).trans hext, ?_⟩
    rw [hend, List.map_cons, List.reverse_cons, List.append_assoc]
    rfl

/-- What checking a function does: it fills in the body, which is then well typed, and leaves the
scopes that were there alone. -/
structure FunChecked (signatures : Signatures) (globals : List Binding) (f f' : FunDecl) :
    Prop where
  name_eq : f'.name = f.name
  signature_eq : f'.signature = f.signature
  typed : FunTyped signatures globals f'

theorem funChecked_of_checkFunction {signatures : Signatures} {globals : List Binding}
    {f f' : FunDecl} {t t' : ScopeTree} (wf : t.WellFormed) (hsize : 1 ≤ t.size)
    (hglobals : t.visible ScopeTree.globalId = [globals])
    (h : checkFunction signatures f t = .ok f' t') :
    ScopeTree.Extends t t' ∧ FunChecked signatures globals f f' := by
  obtain ⟨id, t₁, hadd, h₁⟩ := Check.bind_eq_ok h
  obtain ⟨u, t₂, hparameters, h₂⟩ := Check.bind_eq_ok h₁
  obtain ⟨body, t₃, hbody, hpure⟩ := Check.bind_eq_ok h₂
  obtain ⟨rfl, rfl⟩ := Check.addScope_eq_ok hadd
  obtain ⟨rfl, rfl⟩ := Check.pure_eq_ok hpure
  have wf₁ := wf.add hsize (some f.result)
  have hvisible₁ := ScopeTree.visible_add wf hsize (some f.result)
  have hs₁ := ScopeTree.get?_add_new t ScopeTree.globalId (some f.result)
  have hret₁ := ScopeTree.result?_add wf hsize (some f.result)
  obtain ⟨hext, hvisible₂⟩ := visible_of_checkParameters f.parameters wf₁ hvisible₁ hparameters
  obtain ⟨added, hs₂⟩ := hext.here _ hs₁
  have hret₂ : t₂.result? (t.size + 1) = some f.result :=
    (hext.result?_eq wf₁ hs₁).trans hret₁
  obtain ⟨hext', hbody⟩ := bodyTyped_of_checkBody f.body.body hext.wellFormed hs₂ hret₂ hbody
  refine ⟨(hext.trans hext').extends_of_add, rfl, rfl, t'.visible (t.size + 1), ?_⟩
  rw [hvisible₂, List.append_nil] at hbody
  rw [← hglobals]
  exact hbody

/-! ## Programs -/

/-- When no item of a list has an error, all of them pass, each in the tree that the one before it
left. -/
theorem collect_cons {α : Type} {check : α → Check α} {item : α} {items : List α} {t : ScopeTree}
    (h : (collect check (item :: items) t).errors = []) :
    ∃ item' t', check item t = .ok item' t' ∧ (collect check items t').errors = [] ∧
      (collect check (item :: items) t).passed = item' :: (collect check items t').passed ∧
      (collect check (item :: items) t).scopes = (collect check items t').scopes := by
  cases hc : check item t with
  | ok item' t' =>
    simp only [collect, hc] at h ⊢
    exact ⟨item', t', rfl, h, rfl, rfl⟩
  | error e t' =>
    simp only [collect, hc] at h
    cases h

/-- Globals are declared in order, each in front of those before it. -/
theorem globalsTyped_of_collect {signatures : Signatures} : ∀ (decls : List VarDecl)
    {t : ScopeTree} {before : List Binding}, t.WellFormed → 1 ≤ t.size →
    t.visible ScopeTree.globalId = [before] →
    (collect (checkVarDecl signatures ScopeTree.globalId) decls t).errors = [] →
    let collected := collect (checkVarDecl signatures ScopeTree.globalId) decls t
    collected.scopes.WellFormed ∧ 1 ≤ collected.scopes.size ∧
      GlobalsTyped signatures before collected.passed ∧
      collected.scopes.visible ScopeTree.globalId =
        [(collected.passed.map VarDecl.binding).reverse ++ before]
  | [], t, before, wf, hsize, hv, _ => ⟨wf, hsize, .nil before, hv⟩
  | decl :: decls, t, before, wf, hsize, hv, h => by
    obtain ⟨decl', t', hcheck, hrest, hpassed, hscopes⟩ := collect_cons h
    obtain ⟨htyped, hdeclared⟩ := varTyped_of_checkVarDecl wf hcheck
    obtain ⟨scope, outer, hbefore, hafter⟩ := ScopeTree.visible_declare wf hdeclared
    have hext := ScopeTree.extendsAt_declare wf hdeclared
    rw [hv] at hbefore htyped
    obtain ⟨rfl, rfl⟩ := List.cons.inj hbefore
    obtain ⟨hwf, hsize', hglobals, hend⟩ := globalsTyped_of_collect decls hext.wellFormed
      (Nat.le_trans hsize hext.size_le) hafter hrest
    simp only [hpassed, hscopes]
    refine ⟨hwf, hsize', .cons htyped hglobals, ?_⟩
    rw [hend, List.map_cons, List.reverse_cons, List.append_assoc]
    rfl

theorem funChecked_of_collect {signatures : Signatures} {globals : List Binding} :
    ∀ (fs : List FunDecl) {t : ScopeTree}, t.WellFormed → 1 ≤ t.size →
    t.visible ScopeTree.globalId = [globals] →
    (collect (checkFunction signatures) fs t).errors = [] →
    List.Forall₂ (FunChecked signatures globals) fs
      (collect (checkFunction signatures) fs t).passed
  | [], t, _, _, _, _ => .nil
  | f :: fs, t, wf, hsize, hv, h => by
    obtain ⟨f', t', hcheck, hrest, hpassed, -⟩ := collect_cons h
    obtain ⟨hext, hf⟩ := funChecked_of_checkFunction wf hsize hv hcheck
    rw [hpassed]
    refine .cons hf (funChecked_of_collect fs hext.wellFormed (Nat.le_trans hsize hext.size_le) ?_
      hrest)
    rw [← hv]
    exact hext.visible_eq wf hsize

namespace Signatures

theorem get?_insert (s : Signatures) (name other : String) (signature : Signature) :
    (s.insert name signature).get? other = if other = name then some signature
      else s.get? other := by
  unfold insert get?
  rw [List.find?_cons]
  by_cases h : other = name
  · rw [if_pos h]
    simp [h]
  · rw [if_neg h]
    have hne : ¬ name = other := fun he => h he.symm
    simp only [hne, decide_false, List.find?_filter]
    congr 2
    funext entry
    by_cases he : entry.1 = other
    · simp [he, h]
    · simp [he]

end Signatures

/-- Without an error the signatures are those of the functions, and none has the name of the
builtin. -/
theorem get?_of_collectSignatures : ∀ (fs : List FunDecl) {s s' : Signatures},
    collectSignatures fs s = ([], s') →
    (∀ f ∈ fs, f.name ≠ Builtin.print) ∧
      ∀ name, s'.get? name = (s.get? name).or
        ((fs.find? fun f => f.name = name).map FunDecl.signature)
  | [], s, s', h => by
    cases h
    exact ⟨fun f hf => absurd hf List.not_mem_nil, fun name => by simp⟩
  | f :: fs, s, s', h => by
    unfold collectSignatures at h
    split at h
    · cases h
    · next hfree =>
      obtain ⟨hprint, hnew⟩ := not_or.mp hfree
      have hnone : s.get? f.name = none := by simpa using hnew
      obtain ⟨hnames, hget⟩ := get?_of_collectSignatures fs h
      refine ⟨fun g hg => ?_, fun name => ?_⟩
      · rcases List.mem_cons.mp hg with rfl | hg
        · exact hprint
        · exact hnames g hg
      · rw [hget, Signatures.get?_insert, List.find?_cons]
        by_cases hname : name = f.name
        · subst hname
          simp [hnone]
        · have hne : ¬ f.name = name := fun he => hname he.symm
          rw [if_neg hname]
          simp [hne]

/-- Filling in the bodies does not change which signature is found under a name. -/
theorem find?_signature_of_forall₂ {signatures : Signatures} {globals : List Binding}
    {fs fs' : List FunDecl} (h : List.Forall₂ (FunChecked signatures globals) fs fs')
    (name : String) :
    (fs'.find? fun f => f.name = name).map FunDecl.signature =
      (fs.find? fun f => f.name = name).map FunDecl.signature := by
  induction h with
  | nil => rfl
  | @cons f f' fs fs' hf _ ih =>
    rw [List.find?_cons, List.find?_cons, hf.name_eq]
    by_cases hname : f.name = name
    · simp [hname, hf.signature_eq]
    · simp only [hname, decide_false]
      exact ih

/-- What stands on the right of a relation between lists has a partner on the left. -/
theorem exists_mem_of_forall₂ {α β : Type} {R : α → β → Prop} {xs : List α} {ys : List β}
    (h : List.Forall₂ R xs ys) {y : β} (hy : y ∈ ys) : ∃ x ∈ xs, R x y := by
  induction h with
  | nil => cases hy
  | @cons x y' xs ys hxy _ ih =>
    rcases List.mem_cons.mp hy with rfl | hrest
    · exact ⟨x, List.mem_cons_self, hxy⟩
    · obtain ⟨x', hx', hrelated⟩ := ih hrest
      exact ⟨x', List.mem_cons_of_mem x hx', hrelated⟩

/-- A program passes when no part of it has an error: then the names are those of the functions, and
the globals and the functions have passed one after the other. -/
theorem of_checkProgram_eq_ok {p : Program} {c : Checked} (h : checkProgram p = .ok c) :
    ∃ signatures, collectSignatures p.functions [] = ([], signatures) ∧
      let globals := collect (checkVarDecl signatures ScopeTree.globalId) p.globals .initial
      let functions := collect (checkFunction signatures) p.functions globals.scopes
      globals.errors = [] ∧ functions.errors = [] ∧
        c = ⟨⟨globals.passed, functions.passed⟩, functions.scopes⟩ := by
  unfold checkProgram at h
  cases hcollect : collectSignatures p.functions [] with
  | mk nameErrors signatures =>
    rw [hcollect] at h
    dsimp only at h
    split at h
    · next hnoErrors =>
      cases h
      obtain ⟨hearly, hfunctionErrors⟩ := List.append_eq_nil_iff.mp hnoErrors
      obtain ⟨rfl, hglobalErrors⟩ := List.append_eq_nil_iff.mp hearly
      exact ⟨signatures, rfl, hglobalErrors, hfunctionErrors, rfl⟩
    · cases h

/-- The other way round, a program without an error in any of its parts passes. -/
theorem checkProgram_eq_ok {p : Program} {signatures : Signatures}
    (hnames : collectSignatures p.functions [] = ([], signatures))
    (hglobals :
      (collect (checkVarDecl signatures ScopeTree.globalId) p.globals .initial).errors = [])
    (hfunctions : (collect (checkFunction signatures) p.functions
      (collect (checkVarDecl signatures ScopeTree.globalId) p.globals .initial).scopes).errors =
        []) :
    let globals := collect (checkVarDecl signatures ScopeTree.globalId) p.globals .initial
    let functions := collect (checkFunction signatures) p.functions globals.scopes
    checkProgram p = .ok ⟨⟨globals.passed, functions.passed⟩, functions.scopes⟩ := by
  unfold checkProgram
  rw [hnames]
  simp only [hglobals, hfunctions, List.append_nil]

/-- **What passes checking is well typed.** -/
theorem programTyped_of_checkProgram {p : Program} {c : Checked} (h : checkProgram p = .ok c) :
    ∃ signatures, ProgramTyped signatures c.program := by
  obtain ⟨signatures, hcollect, hglobalErrors, hfunctionErrors, rfl⟩ := of_checkProgram_eq_ok h
  obtain ⟨hnames, hget⟩ := get?_of_collectSignatures p.functions hcollect
  obtain ⟨hwf, hsize, hglobals, hvisible⟩ := globalsTyped_of_collect p.globals
    ScopeTree.wellFormed_initial (Nat.le_refl 1) ScopeTree.visible_initial hglobalErrors
  rw [List.append_nil] at hvisible
  have hfunctions := funChecked_of_collect p.functions hwf hsize hvisible hfunctionErrors
  have hfind := find?_signature_of_forall₂ hfunctions
  refine ⟨signatures, hglobals, ?_, fun name signature hknown => ?_, fun f' hf' => ?_⟩
  · -- the scope of the globals declares no name twice
    obtain ⟨scope, hscope⟩ := Option.isSome_iff_exists.mp
      ((ScopeTree.isSome_get?_iff _ ScopeTree.globalId).mpr ⟨Nat.le_refl 1, hsize⟩)
    rw [ScopeTree.visible_eq_cons hwf hscope] at hvisible
    have hscopes := (List.cons.inj hvisible).1
    unfold Program.globalScope
    rw [← hscopes, List.map_reverse, List.nodup_reverse]
    exact (hwf _ scope hscope).2
  · rw [hget, ← hfind name] at hknown
    obtain ⟨f', hf', rfl⟩ := Option.map_eq_some_iff.mp hknown
    refine ⟨?_, f', hf', rfl⟩
    obtain ⟨f, hf, hchecked⟩ :=
      exists_mem_of_forall₂ hfunctions (List.mem_of_find?_eq_some hf')
    have hname : f'.name = name := by simpa using List.find?_some hf'
    rw [← hname, hchecked.name_eq]
    exact hnames f hf
  · obtain ⟨f, -, hchecked⟩ := exists_mem_of_forall₂ hfunctions hf'
    exact hchecked.typed

end TypedImp
