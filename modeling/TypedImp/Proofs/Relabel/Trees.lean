import TypedImp.Execution.Run
import TypedImp.Proofs.Printing.WellFormed
import TypedImp.Typing.Programs

/-!
# Trees with other labels

A tree carries two kinds of labels that say nothing about its meaning: spans, which tell where its
parts were read, and the numbers of scopes, which tell where checking put its blocks.  A relabeling
changes both at once and leaves the tree alone.  Forgetting the spans is one relabeling and
forgetting the numbers is another.

## Why computations are compared by a function

What a computation does with a tree and what it does with the relabeled one differ in the labels of
results and errors only.  Since the states are the same, this is an equation between the two ends;
stating it as one lets it be read in both directions, so that from two trees with one common
relabeling follows what their computations have in common.

* `Relabeling`, `Relabeling.unplaced`, `Relabeling.unnumbered`: what to put in place of labels.
* `Expr.relabel`, `Stmt.relabel`, `Program.relabel`: trees with other labels.
* `Expr.erase_eq_relabel` and its companions: trees without places are relabeled trees.
* `Carries`: two computations that differ in labels, with a law for each way to build one.
-/

namespace TypedImp

/-- What to put in place of the spans of a tree and of the numbers of its scopes. -/
structure Relabeling where
  span : Span → Span
  scope : Nat → Nat

namespace Relabeling

/-- Forgets where a tree was read. -/
def unplaced : Relabeling := ⟨fun _ => .unlocated, id⟩

/-- Forgets the scopes of the blocks of a tree. -/
def unnumbered : Relabeling := ⟨id, fun _ => 0⟩

end Relabeling

/-! ## Expressions -/

namespace Expr

variable {r : Relabeling}

mutual

/-- The expression with other labels. -/
def relabel (r : Relabeling) : Expr → Expr
  | number value text span => .number value text (r.span span)
  | string value span => .string value (r.span span)
  | bool value span => .bool value (r.span span)
  | name n span => .name n (r.span span)
  | unary op operand span => .unary op (operand.relabel r) (r.span span)
  | binary op left right span => .binary op (left.relabel r) (right.relabel r) (r.span span)
  | call callee arguments span => .call (callee.relabel r) (relabelAll r arguments) (r.span span)

def relabelAll (r : Relabeling) : List Expr → List Expr
  | [] => []
  | e :: es => e.relabel r :: relabelAll r es

end

theorem relabelAll_eq_map (r : Relabeling) (es : List Expr) :
    relabelAll r es = es.map (relabel r) := by
  induction es with
  | nil => rfl
  | cons e es ih => rw [relabelAll, ih, List.map_cons]

@[simp] theorem span_relabel (r : Relabeling) (e : Expr) : (e.relabel r).span = r.span e.span := by
  cases e <;> rfl

/-- What is nothing but a name stays so, and nothing else becomes a name. -/
theorem named?_relabel (r : Relabeling) (e : Expr) :
    (e.relabel r).named? = e.named?.map fun named => (named.1, r.span named.2) := by
  cases e <;> rfl

mutual

theorem erase_eq_relabel : ∀ e : Expr, e.erase = e.relabel .unplaced
  | number .. | string .. | bool .. | name .. => rfl
  | unary op operand span => by rw [erase, relabel, erase_eq_relabel operand]; rfl
  | binary op left right span => by
    rw [erase, relabel, erase_eq_relabel left, erase_eq_relabel right]
    rfl
  | call callee arguments span => by
    rw [erase, relabel, erase_eq_relabel callee, eraseAll_eq_relabelAll arguments]
    rfl

theorem eraseAll_eq_relabelAll : ∀ es : List Expr, eraseAll es = relabelAll .unplaced es
  | [] => rfl
  | e :: es => by rw [eraseAll, relabelAll, erase_eq_relabel e, eraseAll_eq_relabelAll es]

end

end Expr

/-! ## Statements -/

/-- The definition of a variable with other labels. -/
def VarDecl.relabel (r : Relabeling) (decl : VarDecl) : VarDecl :=
  ⟨decl.name, decl.type, decl.initializer.map (Expr.relabel r), r.span decl.span⟩

mutual

/-- The statement with other labels. -/
def Stmt.relabel (r : Relabeling) : Stmt → Stmt
  | .call callee arguments callSpan span =>
    .call (callee.relabel r) (Expr.relabelAll r arguments) (r.span callSpan) (r.span span)
  | .define decl => .define (decl.relabel r)
  | .assign name value span => .assign name (value.relabel r) (r.span span)
  | .ret value span => .ret (value.map (Expr.relabel r)) (r.span span)
  | .ifThenElse condition thenBlock elseBlock span =>
    .ifThenElse (condition.relabel r) (thenBlock.relabel r) (elseBlock.relabel r) (r.span span)
  | .whileDo condition body span =>
    .whileDo (condition.relabel r) (body.relabel r) (r.span span)

def Block.relabel (r : Relabeling) : Block Stmt → Block Stmt
  | ⟨body, scope, span⟩ => ⟨relabelBody r body, r.scope scope, r.span span⟩

def relabelBody (r : Relabeling) : List Stmt → List Stmt
  | [] => []
  | s :: ss => s.relabel r :: relabelBody r ss

end

theorem Block.body_relabel (r : Relabeling) (b : Block Stmt) :
    (b.relabel r).body = relabelBody r b.body := by
  rw [Block.relabel]

theorem Block.span_relabel (r : Relabeling) (b : Block Stmt) :
    (b.relabel r).span = r.span b.span := by
  rw [Block.relabel]

mutual

theorem Stmt.erase_eq_relabel : ∀ s : Stmt, s.erase = s.relabel .unplaced
  | .call callee arguments callSpan span => by
    rw [Stmt.erase, Stmt.relabel, Expr.erase_eq_relabel, Expr.eraseAll_eq_relabelAll]
    rfl
  | .define decl => by
    rw [Stmt.erase, Stmt.relabel, VarDecl.erase, funext Expr.erase_eq_relabel]
    rfl
  | .assign name value span => by
    rw [Stmt.erase, Stmt.relabel, Expr.erase_eq_relabel]
    rfl
  | .ret value span => by
    rw [Stmt.erase, Stmt.relabel, funext Expr.erase_eq_relabel]
    rfl
  | .ifThenElse condition thenBlock elseBlock span => by
    rw [Stmt.erase, Stmt.relabel, Expr.erase_eq_relabel, Block.erase_eq_relabel thenBlock,
      Block.erase_eq_relabel elseBlock]
    rfl
  | .whileDo condition body span => by
    rw [Stmt.erase, Stmt.relabel, Expr.erase_eq_relabel, Block.erase_eq_relabel body]
    rfl

theorem Block.erase_eq_relabel : ∀ b : Block Stmt, b.erase = b.relabel .unplaced
  | ⟨body, scope, span⟩ => by
    rw [Block.erase, Block.relabel, eraseBody_eq_relabelBody body]
    rfl

theorem eraseBody_eq_relabelBody : ∀ ss : List Stmt, eraseBody ss = relabelBody .unplaced ss
  | [] => by rw [eraseBody, relabelBody]
  | s :: ss => by
    rw [eraseBody, relabelBody, Stmt.erase_eq_relabel s, eraseBody_eq_relabelBody ss]

end

/-! ## Programs -/

/-- The parameter with other labels. -/
def Parameter.relabel (r : Relabeling) (parameter : Parameter) : Parameter :=
  ⟨parameter.name, parameter.type, r.span parameter.span⟩

/-- The function with other labels. -/
def FunDecl.relabel (r : Relabeling) (f : FunDecl) : FunDecl :=
  ⟨f.name, f.parameters.map (Parameter.relabel r), f.result, f.body.relabel r, r.span f.span⟩

/-- The program with other labels. -/
def Program.relabel (r : Relabeling) (p : Program) : Program :=
  ⟨p.globals.map (VarDecl.relabel r), p.functions.map (FunDecl.relabel r)⟩

@[simp] theorem FunDecl.name_relabel (r : Relabeling) (f : FunDecl) :
    (f.relabel r).name = f.name := rfl

theorem FunDecl.signature_relabel (r : Relabeling) (f : FunDecl) :
    (f.relabel r).signature = f.signature := by
  simp only [FunDecl.signature, FunDecl.relabel, List.map_map]
  rfl

/-- Functions are found under their names, whatever else is changed in them. -/
theorem find?_map_of_name_eq {form : FunDecl → FunDecl} (h : ∀ f, (form f).name = f.name)
    (fs : List FunDecl) (name : String) :
    ((fs.map form).find? fun f => f.name = name) =
      (fs.find? fun f => f.name = name).map form := by
  have hname : (fun f : FunDecl => decide (f.name = name)) ∘ form =
      fun f => decide (f.name = name) := by
    funext f
    rw [Function.comp_apply, h]
  rw [List.find?_map, hname]

theorem Program.function?_relabel (r : Relabeling) (p : Program) (name : String) :
    (p.relabel r).function? name = (p.function? name).map (FunDecl.relabel r) :=
  find?_map_of_name_eq (FunDecl.name_relabel r) p.functions name

theorem FunDecl.erase_eq_relabel (f : FunDecl) : f.erase = f.relabel .unplaced := by
  rw [FunDecl.erase, FunDecl.relabel, Block.erase_eq_relabel]
  rfl

theorem Program.erase_eq_relabel (p : Program) : p.erase = p.relabel .unplaced := by
  have hdecl : VarDecl.erase = VarDecl.relabel .unplaced := by
    funext decl
    rw [VarDecl.erase, funext Expr.erase_eq_relabel]
    rfl
  rw [Program.erase, Program.relabel, hdecl, funext FunDecl.erase_eq_relabel]

/-! ## Errors -/

/-- The error at another place. -/
def Error.relabel (r : Relabeling) (e : Error) : Error := ⟨e.cause, r.span e.span⟩

/-- The end of a computation, with its error at another place. -/
def Stop.relabel (r : Relabeling) : Stop → Stop
  | .fault e => .fault (e.relabel r)
  | .exhausted => .exhausted

/-! ## Computations -/

section Computations

variable {ε σ α β γ δ : Type}

/-- The end of a computation, with its result and its error changed. -/
def mapEnd (err : ε → ε) (form : α → β) : EStateM.Result ε σ α → EStateM.Result ε σ β
  | .ok a s => .ok (form a) s
  | .error e s => .error (err e) s

/-- The second computation does what the first does, and its result and its error are those of the
first after a change. -/
def Carries (err : ε → ε) (form : α → β) (x : EStateM ε σ α) (y : EStateM ε σ β) : Prop :=
  ∀ s, y s = mapEnd err form (x s)

namespace Carries

variable {err : ε → ε} {form : α → β} {form' : γ → δ}

theorem pure (a : α) : Carries (σ := σ) err form (Pure.pure a) (Pure.pure (form a)) :=
  fun _ => rfl

theorem throw (e : ε) : Carries (σ := σ) err form (throw e) (throw (err e)) :=
  fun _ => rfl

/-- One computation after the other. -/
theorem bind {x : EStateM ε σ α} {y : EStateM ε σ β} {f : α → EStateM ε σ γ}
    {g : β → EStateM ε σ δ} (hx : Carries err form x y)
    (hf : ∀ a, Carries err form' (f a) (g (form a))) : Carries err form' (x >>= f) (y >>= g) := by
  intro s
  change EStateM.bind y g s = mapEnd err form' (EStateM.bind x f s)
  unfold EStateM.bind
  rw [hx s]
  cases x s with
  | ok a s' => exact hf a s'
  | error e s' => rfl

/-- A computation that has no labels in its result, and another one after it. -/
theorem plainBind {x y : EStateM ε σ α} {f : α → EStateM ε σ γ} {g : α → EStateM ε σ δ}
    (hx : Carries err id x y) (hf : ∀ a, Carries err form' (f a) (g a)) :
    Carries err form' (x >>= f) (y >>= g) :=
  hx.bind hf

theorem get {f : σ → EStateM ε σ γ} {g : σ → EStateM ε σ δ}
    (h : ∀ s, Carries err form' (f s) (g s)) :
    Carries err form' (MonadState.get >>= f) (MonadState.get >>= g) :=
  fun s => h s s

/-- A change of the state has no labels at all. -/
theorem modify (change : σ → σ) :
    Carries (ε := ε) err id (modify change : EStateM ε σ Unit) (modify change) :=
  fun _ => rfl

end Carries

end Computations

end TypedImp
