import TypedImp.Proofs.Relabel.Trees
import TypedImp.Proofs.Typing.Checking

/-!
# Checking does not look at spans

Checking asks a tree for names, types and operators.  A span goes into errors and is copied into the
result, and nothing is decided by it.  So a program and the program with other spans pass together,
with the same scopes and with results that differ in spans; or they have the same errors in the same
order, each at its own place.

The numbers of scopes have to be kept here: checking copies the number of an empty block and hands
out the others, so a relabeling that changes numbers would have to change those it hands out.

* `typeOf_relabel`: expressions.
* `checkStmt_relabel`, `checkBlock_relabel`, `checkBody_relabel`: statements.
* `collect_relabel`: items of a list, one after the other.
* `checkProgram_relabel`: whole programs.
-/

namespace TypedImp

/-! ## Expressions -/

section Expressions

variable {r : Relabeling} {Γ : Context}

/-- Errors may be changed part by part. -/
theorem mapError_bind {ε α β : Type} (err : ε → ε) (x : Except ε α) (f : α → Except ε β) :
    (x >>= f).mapError err = x.mapError err >>= fun a => (f a).mapError err := by
  cases x with
  | ok a => rfl
  | error e => rfl

theorem arityError?_relabel (expected : Nat) (arguments : List Expr) (span : Span) :
    arityError? expected (Expr.relabelAll r arguments) (r.span span) =
      (arityError? expected arguments span).map (Error.relabel r) := by
  unfold arityError?
  rw [Expr.relabelAll_eq_map, List.getElem?_map, List.length_map]
  cases arguments[expected]? with
  | some extra => simp only [Option.map_some, Expr.span_relabel, Error.relabel]
  | none =>
    simp only [Option.map_none]
    split
    · rfl
    · rfl

mutual

theorem typeOf_relabel : ∀ e : Expr,
    typeOf Γ (e.relabel r) = (typeOf Γ e).mapError (Error.relabel r)
  | .number .. | .string .. | .bool .. => by simp only [Expr.relabel, typeOf]; rfl
  | .name name span => by
    simp only [Expr.relabel, typeOf]
    split
    all_goals rfl
  | .unary op operand span => by
    simp only [Expr.relabel, typeOf, mapError_bind, typeOf_relabel operand]
    congr 1
    funext t
    split
    all_goals rfl
  | .binary op left right span => by
    simp only [Expr.relabel, typeOf, mapError_bind, typeOf_relabel left, typeOf_relabel right,
      Expr.span_relabel]
    congr 1
    funext s
    congr 1
    funext t
    split
    · rfl
    · split
      all_goals rfl
  | .call callee arguments span => by
    simp only [Expr.relabel, typeOf, Expr.named?_relabel]
    cases callee.named? with
    | none =>
      simp only [Option.map_none, mapError_bind, typeOf_relabel callee, Expr.span_relabel]
      rfl
    | some named =>
      simp only [Option.map_some]
      cases Γ.resolve? named.1 with
      | none => rfl
      | some referent =>
        cases referent with
        | value type => rfl
        | builtin =>
          simp only [mapError_bind, checkEach_relabel arguments]
          rfl
        | function signature =>
          simp only [arityError?_relabel]
          cases arityError? signature.parameters.length arguments span with
          | some error => rfl
          | none =>
            simp only [Option.map_none, mapError_bind,
              checkArguments_relabel arguments signature.parameters]
            rfl

theorem checkArguments_relabel : ∀ (es : List Expr) (ts : List Ty),
    checkArguments Γ (Expr.relabelAll r es) ts =
      (checkArguments Γ es ts).mapError (Error.relabel r)
  | [], _ => by simp only [Expr.relabelAll, checkArguments]; rfl
  | _ :: _, [] => by simp only [Expr.relabelAll, checkArguments]; rfl
  | e :: es, t :: ts => by
    simp only [Expr.relabelAll, checkArguments, mapError_bind, typeOf_relabel e,
      checkArguments_relabel es ts, Expr.span_relabel]
    congr 1
    funext s
    split
    all_goals rfl

theorem checkEach_relabel : ∀ es : List Expr,
    checkEach Γ (Expr.relabelAll r es) = (checkEach Γ es).mapError (Error.relabel r)
  | [] => by simp only [Expr.relabelAll, checkEach]; rfl
  | e :: es => by
    simp only [Expr.relabelAll, checkEach, mapError_bind, typeOf_relabel e, checkEach_relabel es]

end

end Expressions

/-! ## Parts of a check -/

section Parts

variable {r : Relabeling} {signatures : Signatures} {scope : Nat}

theorem ofExcept_relabel {α : Type} (x : Except Error α) :
    Carries (Error.relabel r) id (Check.ofExcept x)
      (Check.ofExcept (x.mapError (Error.relabel r))) := by
  cases x with
  | ok a => exact .pure a
  | error e => exact .throw e

theorem typeIn_relabel (e : Expr) :
    Carries (Error.relabel r) id (Check.typeIn signatures scope e)
      (Check.typeIn signatures scope (e.relabel r)) := by
  refine .get fun t => ?_
  rw [typeOf_relabel]
  exact ofExcept_relabel _

theorem declare_relabel (b : Binding) (span : Span) :
    Carries (Error.relabel r) id (Check.declare scope b span)
      (Check.declare scope b (r.span span)) := by
  have hdeclare : ∀ t : ScopeTree, t.declare scope b (r.span span) =
      (t.declare scope b span).mapError (Error.relabel r) := by
    intro t
    unfold ScopeTree.declare
    split
    · rfl
    · split
      all_goals rfl
  refine .get fun t => ?_
  rw [hdeclare]
  exact (ofExcept_relabel _).plainBind fun t' => .modify fun _ => t'

theorem addScope_relabel (parent : Nat) (result : Option Ty) :
    Carries (Error.relabel r) id (Check.addScope parent result) (Check.addScope parent result) :=
  fun _ => rfl

theorem requireValues_relabel (name : String) (t : Ty) (span : Span) :
    requireValues name t (r.span span) =
      (requireValues name t span).mapError (Error.relabel r) := by
  unfold requireValues
  split
  all_goals rfl

/-- An initializer with its type, relabeled. -/
def relabelTyped (r : Relabeling) (typed : Expr × Ty) : Expr × Ty := (typed.1.relabel r, typed.2)

theorem settleType_relabel (decl : VarDecl) (initializer : Option (Expr × Ty)) :
    settleType (decl.relabel r) (initializer.map (relabelTyped r)) =
      (settleType decl initializer).mapError (Error.relabel r) := by
  have htype : (decl.relabel r).type = decl.type := rfl
  cases initializer with
  | none =>
    rw [Option.map_none, settleType_none, settleType_none, htype]
    split
    all_goals rfl
  | some typed =>
    obtain ⟨e, t⟩ := typed
    simp only [Option.map_some, relabelTyped, settleType_some, Expr.span_relabel, htype]
    split
    · rfl
    · split
      all_goals rfl

theorem checkInitializer_relabel (initializer : Option Expr) :
    Carries (Error.relabel r) (Option.map (relabelTyped r))
      (checkInitializer signatures scope initializer)
      (checkInitializer signatures scope (initializer.map (Expr.relabel r))) := by
  cases initializer with
  | none => exact .pure none
  | some e => exact (typeIn_relabel e).plainBind fun t => .pure (some (e, t))

theorem checkVarDecl_relabel (decl : VarDecl) :
    Carries (Error.relabel r) (VarDecl.relabel r) (checkVarDecl signatures scope decl)
      (checkVarDecl signatures scope (decl.relabel r)) := by
  refine (checkInitializer_relabel decl.initializer).bind fun initializer => ?_
  rw [settleType_relabel]
  refine (ofExcept_relabel _).plainBind fun t => ?_
  refine .plainBind (x := Check.ofExcept (requireValues decl.name t decl.span)) ?_ fun _ => ?_
  · have hvalues := requireValues_relabel (r := r) decl.name t decl.span
    simp only [VarDecl.relabel, hvalues]
    exact ofExcept_relabel _
  · exact (declare_relabel _ decl.span).plainBind fun _ => .pure _

theorem checkAgainst_relabel (required : Ty) (e : Expr) :
    Carries (Error.relabel r) id (checkAgainst signatures scope required e)
      (checkAgainst signatures scope required (e.relabel r)) := by
  refine (typeIn_relabel e).plainBind fun t => ?_
  rw [Expr.span_relabel]
  split
  · exact .throw _
  · exact .pure _

theorem checkAssignment_relabel (name : String) (value : Expr) (span : Span) :
    Carries (Error.relabel r) id (checkAssignment signatures scope name value span)
      (checkAssignment signatures scope name (value.relabel r) (r.span span)) := by
  refine .get fun t => ?_
  cases (⟨signatures, t, scope⟩ : Context).resolve? name with
  | none => exact .throw _
  | some referent =>
    cases referent with
    | function signature => exact .throw _
    | builtin => exact .throw _
    | value type =>
      dsimp only
      split
      · exact checkAgainst_relabel type.ty value
      · exact .throw _

theorem checkReturn_relabel (value : Option Expr) (span : Span) :
    Carries (Error.relabel r) id (checkReturn signatures scope value span)
      (checkReturn signatures scope (value.map (Expr.relabel r)) (r.span span)) := by
  refine .get fun t => ?_
  cases t.result? scope with
  | none => exact .throw _
  | some required =>
    cases value with
    | some e => exact checkAgainst_relabel required e
    | none =>
      simp only [Option.map_none]
      split
      · exact .throw _
      · exact .pure _

theorem checkParameters_relabel (ps : List Parameter) :
    Carries (Error.relabel r) id (checkParameters scope ps)
      (checkParameters scope (ps.map (Parameter.relabel r))) := by
  induction ps with
  | nil => exact .pure _
  | cons p ps ih =>
    simp only [List.map_cons, checkParameters, Parameter.relabel, requireValues_relabel]
    exact (ofExcept_relabel _).plainBind fun _ =>
      (declare_relabel _ p.span).plainBind fun _ => ih

end Parts

/-! ## Statements and blocks

The induction is on the syntax.  A block with statements is given its number, and a block without
any keeps the one it has. -/

section Blocks

variable {r : Relabeling} {signatures : Signatures}

mutual

theorem checkStmt_relabel (hscope : r.scope = id) : ∀ (s : Stmt) (scope : Nat),
    Carries (Error.relabel r) (Stmt.relabel r) (checkStmt signatures scope s)
      (checkStmt signatures scope (s.relabel r))
  | .call callee arguments callSpan span, scope => by
    simp only [Stmt.relabel, checkStmt]
    refine (typeIn_relabel (.call callee arguments callSpan)).plainBind fun _ => ?_
    rw [← Stmt.relabel]
    exact .pure _
  | .define decl, scope => by
    simp only [Stmt.relabel, checkStmt]
    refine (checkVarDecl_relabel decl).bind fun decl' => ?_
    rw [← Stmt.relabel]
    exact .pure _
  | .assign name value span, scope => by
    simp only [Stmt.relabel, checkStmt]
    refine (checkAssignment_relabel name value span).plainBind fun _ => ?_
    rw [← Stmt.relabel]
    exact .pure _
  | .ret value span, scope => by
    simp only [Stmt.relabel, checkStmt]
    refine (checkReturn_relabel value span).plainBind fun _ => ?_
    rw [← Stmt.relabel]
    exact .pure _
  | .ifThenElse condition thenBlock elseBlock span, scope => by
    simp only [Stmt.relabel, checkStmt]
    refine (checkAgainst_relabel .bool condition).plainBind fun _ => ?_
    refine (checkBlock_relabel hscope thenBlock scope).bind fun thenBlock' => ?_
    refine (checkBlock_relabel hscope elseBlock scope).bind fun elseBlock' => ?_
    rw [← Stmt.relabel]
    exact .pure _
  | .whileDo condition body span, scope => by
    simp only [Stmt.relabel, checkStmt]
    refine (checkAgainst_relabel .bool condition).plainBind fun _ => ?_
    refine (checkBlock_relabel hscope body scope).bind fun body' => ?_
    rw [← Stmt.relabel]
    exact .pure _

theorem checkBlock_relabel (hscope : r.scope = id) : ∀ (b : Block Stmt) (scope : Nat),
    Carries (Error.relabel r) (Block.relabel r) (checkBlock signatures scope b)
      (checkBlock signatures scope (b.relabel r))
  | ⟨[], number, span⟩, scope => by
    simp only [Block.relabel, relabelBody, checkBlock]
    refine fun t => ?_
    simp only [Pure.pure, EStateM.pure, mapEnd, Block.relabel, relabelBody]
  | ⟨s :: ss, number, span⟩, scope => by
    simp only [Block.relabel, relabelBody, checkBlock]
    refine (addScope_relabel scope none).plainBind fun new => ?_
    refine (checkStmt_relabel hscope s new).bind fun first => ?_
    refine (checkBody_relabel hscope ss new).bind fun rest => ?_
    have hblock : (⟨first.relabel r :: relabelBody r rest, new, r.span span⟩ : Block Stmt) =
        Block.relabel r ⟨first :: rest, new, span⟩ := by
      rw [Block.relabel, relabelBody, hscope, id_eq]
    rw [hblock]
    exact .pure _

theorem checkBody_relabel (hscope : r.scope = id) : ∀ (ss : List Stmt) (scope : Nat),
    Carries (Error.relabel r) (relabelBody r) (checkBody signatures scope ss)
      (checkBody signatures scope (relabelBody r ss))
  | [], scope => by
    simp only [relabelBody, checkBody]
    refine fun t => ?_
    simp only [Pure.pure, EStateM.pure, mapEnd, relabelBody]
  | s :: ss, scope => by
    simp only [relabelBody, checkBody]
    refine (checkStmt_relabel hscope s scope).bind fun first => ?_
    refine (checkBody_relabel hscope ss scope).bind fun rest => ?_
    rw [← relabelBody]
    exact .pure _

end

theorem checkFunction_relabel (hscope : r.scope = id) (f : FunDecl) :
    Carries (Error.relabel r) (FunDecl.relabel r) (checkFunction signatures f)
      (checkFunction signatures (f.relabel r)) := by
  refine (addScope_relabel _ _).plainBind fun new => ?_
  refine (checkParameters_relabel f.parameters).plainBind fun _ => ?_
  rw [FunDecl.relabel, Block.body_relabel]
  refine (checkBody_relabel hscope f.body.body new).bind fun body => ?_
  have hf : ({ f.relabel r with body := ⟨relabelBody r body, new, (f.body.relabel r).span⟩ } :
      FunDecl) = FunDecl.relabel r { f with body := ⟨body, new, f.body.span⟩ } := by
    simp only [FunDecl.relabel, Block.relabel, Block.span_relabel, hscope, id_eq]
  exact hf ▸ .pure _

end Blocks

/-! ## Programs -/

/-- The items of a list, checked one after the other, pass or fail alike. -/
theorem collect_relabel {α : Type} {err : Error → Error} {form : α → α} {check check' : α → Check α}
    (h : ∀ item, Carries err form (check item) (check' (form item))) :
    ∀ (items : List α) (t : ScopeTree), collect check' (items.map form) t =
      ⟨(collect check items t).errors.map err, (collect check items t).passed.map form,
        (collect check items t).scopes⟩
  | [], _ => rfl
  | item :: items, t => by
    rw [List.map_cons, collect, collect, h item t]
    cases check item t with
    | ok item' t' => simp only [mapEnd, collect_relabel h items t', List.map_cons]
    | error e t' => simp only [mapEnd, collect_relabel h items t', List.map_cons]

theorem collectSignatures_relabel (r : Relabeling) : ∀ (fs : List FunDecl) (s : Signatures),
    collectSignatures (fs.map (FunDecl.relabel r)) s =
      ((collectSignatures fs s).1.map (Error.relabel r), (collectSignatures fs s).2)
  | [], _ => rfl
  | f :: fs, s => by
    rw [List.map_cons, collectSignatures, collectSignatures, FunDecl.name_relabel,
      FunDecl.signature_relabel]
    split
    · simp only [collectSignatures_relabel r fs s, List.map_cons]
      rfl
    · exact collectSignatures_relabel r fs (s.insert f.name f.signature)

/-- **Checking does not look at spans.**  A program with other spans passes when the program does,
with the same scopes; if not, it has the same errors at other places. -/
theorem checkProgram_relabel {r : Relabeling} (hscope : r.scope = id) (p : Program) :
    checkProgram (p.relabel r) = match checkProgram p with
      | .ok c => .ok ⟨c.program.relabel r, c.scopes⟩
      | .error errors => .error (errors.map (Error.relabel r)) := by
  unfold checkProgram
  simp only [Program.relabel, collectSignatures_relabel,
    collect_relabel checkVarDecl_relabel, collect_relabel (checkFunction_relabel hscope),
    ← List.map_append]
  generalize (_ ++ _ ++ _ : List Error) = errors
  cases errors with
  | nil => rfl
  | cons e es => rfl

end TypedImp
