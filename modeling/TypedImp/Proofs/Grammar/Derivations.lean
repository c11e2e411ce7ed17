import TypedImp.Grammar.Programs
import TypedImp.Proofs.Grammar.Moves
import TypedImp.Proofs.Printing.WellFormed

/-!
# Trees and the tokens that they come from

The functions of the grammar are programs: they look ahead, run on fuel and stop with errors.  Which
tree comes from which tokens can be said without any of this.  There is a relation for each sort of
tree, with a constructor for each form, and it holds between the cursor in front of the first token
of the tree and the one behind the last.

A derivation shows the tokens that were passed and the spans that were put on the tree.  It does not
show how tightly operators bind: an expression can have derivations with other groupings, of which
parsing finds one.

## Lists of what is being defined

Arguments are expressions, and the statements of a block are statements.  A list of items is derived
with respect to a relation for its items, and where it stands inside the definition of that very
relation, any relation that is contained in it will do.  So an induction reaches the items without
another induction over lists, and what is known of lists of anything can be used.

* `Cursor.Passes`, `Cursor.Skips`: passing a token, and a token that need not be there.
* `CommaSeparated`, `Sequence`, `Optional`: lists with commas, lists without, and what may be
  absent.
* `Expr.Derived`, `Ty.Derived`, `VarDecl.Derived`, `Stmt.Derived`, `FunDecl.Derived`: trees.
* `Program.Grows`: definitions, one after the other.
* `Expr.Derived.moves` and its companions: derivations pass tokens and nothing else.
-/

namespace TypedImp

/-! ## Tokens -/

/-- A token of a kind, which is not the end of the input, stands at one cursor and directly before
the other. -/
structure Cursor.Passes (c : Cursor) (kind : TokenKind) (t : Token) (c' : Cursor) : Prop where
  kind_eq : t.kind = kind
  visible : kind ≠ .endOfInput
  ahead_eq : c.current :: c.ahead = t :: c'.current :: c'.ahead
  before_eq : c'.before = t :: c.before

namespace Cursor.Passes

variable {c c' : Cursor} {kind : TokenKind} {t : Token}

theorem current_eq (h : c.Passes kind t c') : c.current = t := (List.cons.inj h.ahead_eq).1

theorem kind_ne (h : c.Passes kind t c') : t.kind ≠ .endOfInput := h.kind_eq ▸ h.visible

theorem moves (h : c.Passes kind t c') : c.Moves c' :=
  ⟨[t], List.forall_mem_singleton.mpr h.kind_ne, h.ahead_eq, h.before_eq⟩

theorem position_eq (h : c.Passes kind t c') : c'.position = c.position + 1 :=
  congrArg List.length h.before_eq

theorem peek_one (h : c.Passes kind t c') : c.peek 1 = c'.current := by
  rw [Cursor.peek, (List.cons.inj h.ahead_eq).2]
  rfl

/-- Advancing passes the current token. -/
theorem advance (hc : c.Ends) (hkind : c.current.kind = kind) (hvisible : kind ≠ .endOfInput) :
    c.Passes kind c.current c.advance := by
  have hcurrent : c.current.kind ≠ .endOfInput := hkind ▸ hvisible
  obtain ⟨t, ts, hahead⟩ := List.exists_cons_of_ne_nil (Cursor.ahead_ne_nil hc hcurrent)
  rw [Cursor.advance_of_cons hcurrent hahead]
  exact ⟨hkind, hvisible, by rw [hahead], rfl⟩

end Cursor.Passes

/-- A token of a kind is passed if it stands here, and it is known whether it was. -/
inductive Cursor.Skips : Cursor → TokenKind → Bool → Cursor → Prop
  | present {c c' : Cursor} {kind : TokenKind} {t : Token} (word : c.Passes kind t c') :
    Skips c kind true c'
  | absent {c : Cursor} {kind : TokenKind} (kind_ne : c.current.kind ≠ kind) :
    Skips c kind false c

theorem Cursor.Skips.moves {c c' : Cursor} {kind : TokenKind} {found : Bool}
    (h : c.Skips kind found c') : c.Moves c' := by
  cases h with
  | present word => exact word.moves
  | absent => exact .refl c

/-! ## Lists -/

section

variable {α : Type} (R : Cursor → α → Cursor → Prop)

/-- Any number of items with commas between them. -/
inductive CommaSeparated : Cursor → List α → Cursor → Prop
  | none {c : Cursor} : CommaSeparated c [] c
  | one {c c' : Cursor} {a : α} (item : R c a c') : CommaSeparated c [a] c'
  | more {c c₁ c₂ c' : Cursor} {a b : α} {as : List α} {t : Token} (item : R c a c₁)
    (comma : c₁.Passes .comma t c₂) (rest : CommaSeparated c₂ (b :: as) c') :
    CommaSeparated c (a :: b :: as) c'

/-- Any number of items, one directly behind the other. -/
inductive Sequence : Cursor → List α → Cursor → Prop
  | nil {c : Cursor} : Sequence c [] c
  | cons {c c₁ c' : Cursor} {a : α} {as : List α} (first : R c a c₁) (rest : Sequence c₁ as c') :
    Sequence c (a :: as) c'

/-- An item, or nothing. -/
inductive Optional : Cursor → Option α → Cursor → Prop
  | absent {c : Cursor} : Optional c none c
  | present {c c' : Cursor} {a : α} (item : R c a c') : Optional c (some a) c'

variable {R} {P : α → Prop} {c c' : Cursor} {as : List α}

theorem CommaSeparated.moves (h : CommaSeparated R c as c')
    (hR : ∀ {d a d'}, R d a d' → d.Moves d') : c.Moves c' := by
  induction h with
  | none => exact .refl _
  | one item => exact hR item
  | more item comma _ ih => exact ((hR item).trans comma.moves).trans ih

theorem Sequence.moves (h : Sequence R c as c') (hR : ∀ {d a d'}, R d a d' → d.Moves d') :
    c.Moves c' := by
  induction h with
  | nil => exact .refl _
  | cons first _ ih => exact (hR first).trans ih

theorem Optional.moves {value : Option α} (h : Optional R c value c')
    (hR : ∀ {d a d'}, R d a d' → d.Moves d') : c.Moves c' := by
  cases h with
  | absent => exact .refl _
  | present item => exact hR item

/-- What holds of an item wherever it is derived behind `c` holds of all items. -/
theorem CommaSeparated.forall_mem (h : CommaSeparated R c as c')
    (hR : ∀ {d a d'}, R d a d' → d.Moves d') (hP : ∀ {d a d'}, c.Moves d → R d a d' → P a) :
    ∀ a ∈ as, P a := by
  induction h with
  | none => exact List.forall_mem_nil P
  | one item => exact List.forall_mem_singleton.mpr (hP (.refl _) item)
  | more item comma _ ih =>
    have hbefore := (hR item).trans comma.moves
    exact List.forall_mem_cons.mpr
      ⟨hP (.refl _) item, ih fun hmoves hitem => hP (hbefore.trans hmoves) hitem⟩

theorem Sequence.forall_mem (h : Sequence R c as c') (hR : ∀ {d a d'}, R d a d' → d.Moves d')
    (hP : ∀ {d a d'}, c.Moves d → R d a d' → P a) : ∀ a ∈ as, P a := by
  induction h with
  | nil => exact List.forall_mem_nil P
  | cons first _ ih =>
    exact List.forall_mem_cons.mpr
      ⟨hP (.refl _) first, ih fun hmoves hitem => hP ((hR first).trans hmoves) hitem⟩

theorem Optional.forall_mem {value : Option α} (h : Optional R c value c')
    (hP : ∀ {a d'}, R c a d' → P a) : ∀ a ∈ value, P a := by
  cases h with
  | absent => exact nofun
  | present item =>
    rintro _ ⟨⟩
    exact hP item

end

open Parse

/-! ## Expressions -/

/-- The expressions that can be read from one cursor to another. -/
inductive Expr.Derived : Cursor → Expr → Cursor → Prop
  | integer {c c' : Cursor} {t : Token} {value : Int32} (digits : c.Passes .number t c')
    (read : readInt32? t.value.toList = some value) :
    Derived c (.number (.int32 value) t.value t.span) c'
  | decimal {c c₁ c₂ c' : Cursor} {t point u : Token} {value : Float32}
    (whole : c.Passes .number t c₁) (dot : c₁.Passes .dot point c₂)
    (fraction : c₂.Passes .number u c') (joined : formsDecimal t point u = true)
    (read : readFloat32? (t.value ++ "." ++ u.value).toList = some value) :
    Derived c (.number (.float32 value) (t.value ++ "." ++ u.value) (t.span.join u.span)) c'
  | name {c c' : Cursor} {t : Token} (word : c.Passes .identifier t c') :
    Derived c (.name t.value t.span) c'
  | string {c c' : Cursor} {t : Token} (quoted : c.Passes .string t c') :
    Derived c (.string t.value t.span) c'
  | isTrue {c c' : Cursor} {t : Token} (word : c.Passes .trueWord t c') :
    Derived c (.bool true t.span) c'
  | isFalse {c c' : Cursor} {t : Token} (word : c.Passes .falseWord t c') :
    Derived c (.bool false t.span) c'
  /-- The least integer, with its sign. -/
  | least {c c₁ c' : Cursor} {t u : Token} (sign : c.Passes .dash t c₁)
    (magnitude : c₁.Passes .number u c')
    (read : readInt64? u.value.toList = some (Int64.ofNat leastMagnitude)) :
    Derived c (.number (.int32 Int32.minValue) ("-" ++ u.value) (t.span.join u.span)) c'
  | unary {c c₁ c' : Cursor} {kind : TokenKind} {t : Token} {e : Expr}
    (operator : c.Passes kind t c₁) (starts : Grammar.standard.start kind = some .operator)
    (operand : Derived c₁ e c') :
    Derived c (.unary (UnaryOp.ofKind kind) e (t.span.join e.span)) c'
  /-- Parentheses leave no trace, neither as a node nor in the span. -/
  | group {c c₁ c₂ c' : Cursor} {t u : Token} {e : Expr} (start : c.Passes .openParen t c₁)
    (inner : Derived c₁ e c₂) (close : c₂.Passes .closeParen u c') : Derived c e c'
  | binary {c c₁ c₂ c' : Cursor} {kind : TokenKind} {t : Token} {op : BinaryOp} {e f : Expr}
    (left : Derived c e c₁) (operator : c₁.Passes kind t c₂)
    (op_eq : BinaryOp.ofKind? kind = some op) (right : Derived c₂ f c') :
    Derived c (.binary op e f (e.span.join f.span)) c'
  | call {R : Cursor → Expr → Cursor → Prop} {c c₁ c₂ c₃ c' : Cursor} {t u : Token} {e : Expr}
    {arguments : List Expr} (callee : Derived c e c₁) (start : c₁.Passes .openParen t c₂)
    (passed : CommaSeparated R c₂ arguments c₃) (close : c₃.Passes .closeParen u c')
    (each : ∀ {d a d'}, R d a d' → Derived d a d') :
    Derived c (.call e arguments (e.span.join u.span)) c'

theorem Expr.Derived.moves {c c' : Cursor} {e : Expr} (h : Expr.Derived c e c') : c.Moves c' := by
  induction h with
  | integer digits => exact digits.moves
  | decimal whole dot fraction => exact (whole.moves.trans dot.moves).trans fraction.moves
  | name word => exact word.moves
  | string quoted => exact quoted.moves
  | isTrue word => exact word.moves
  | isFalse word => exact word.moves
  | least sign magnitude => exact sign.moves.trans magnitude.moves
  | unary operator _ _ ih => exact operator.moves.trans ih
  | group start _ close ih => exact (start.moves.trans ih).trans close.moves
  | binary _ operator _ _ ihleft ihright => exact (ihleft.trans operator.moves).trans ihright
  | call _ start passed close _ ihcallee iheach =>
    exact ((ihcallee.trans start.moves).trans (passed.moves iheach)).trans close.moves

/-- An expression behind a sign. -/
inductive Expr.DerivedAfter (sign : TokenKind) : Cursor → Expr → Cursor → Prop
  | intro {c c₁ c' : Cursor} {t : Token} {e : Expr} (word : c.Passes sign t c₁)
    (value : Expr.Derived c₁ e c') : DerivedAfter sign c e c'

theorem Expr.DerivedAfter.moves {sign : TokenKind} {c c' : Cursor} {e : Expr}
    (h : Expr.DerivedAfter sign c e c') : c.Moves c' := by
  cases h with
  | intro word value => exact word.moves.trans value.moves

/-! ## Types and variables -/

/-- The types that can be read from one cursor to another. -/
inductive Ty.Derived : Cursor → Ty → Cursor → Prop
  | name {c c' : Cursor} {t : Token} (word : c.Passes .identifier t c') :
    Derived c (.ofName t.value) c'
  | deduced {c c' : Cursor} {t : Token} (placeholder : c.Passes .underscore t c') :
    Derived c .deduced c'
  | pointer {c c₁ c' : Cursor} {t : Token} {target : Ty} (star : c.Passes .star t c₁)
    (inner : Derived c₁ target c') : Derived c (.pointer target) c'

theorem Ty.Derived.moves {c c' : Cursor} {t : Ty} (h : Ty.Derived c t c') : c.Moves c' := by
  induction h with
  | name word => exact word.moves
  | deduced placeholder => exact placeholder.moves
  | pointer star _ ih => exact star.moves.trans ih

/-- A type, perhaps behind the word that makes a variable mutable. -/
inductive BindingTy.Derived : Cursor → BindingTy → Cursor → Prop
  | intro {c c₁ c' : Cursor} {ty : Ty} {isMutable : Bool}
    (word : c.Skips .mutableWord isMutable c₁) (type : Ty.Derived c₁ ty c') :
    Derived c ⟨ty, isMutable⟩ c'

theorem BindingTy.Derived.moves {c c' : Cursor} {b : BindingTy} (h : BindingTy.Derived c b c') :
    c.Moves c' := by
  cases h with
  | intro word type => exact word.moves.trans type.moves

/-- What stands behind the name of a variable: a value from which the type is deduced, or a type and
perhaps a value. -/
inductive BindingDerived : Cursor → BindingTy × Option Expr → Cursor → Prop
  | inferred {c c' : Cursor} {e : Expr} (value : Expr.DerivedAfter .colonEquals c e c') :
    BindingDerived c (⟨.deduced, false⟩, some e) c'
  | typed {c c₁ c₂ c' : Cursor} {t : Token} {b : BindingTy} {value : Option Expr}
    (colon : c.Passes .colon t c₁) (type : BindingTy.Derived c₁ b c₂)
    (initial : Optional (Expr.DerivedAfter .assignment) c₂ value c') :
    BindingDerived c (b, value) c'

theorem BindingDerived.moves {c c' : Cursor} {b : BindingTy × Option Expr}
    (h : BindingDerived c b c') : c.Moves c' := by
  cases h with
  | inferred value => exact value.moves
  | typed colon type initial =>
    exact (colon.moves.trans type.moves).trans (initial.moves Expr.DerivedAfter.moves)

/-- Definitions of variables, from the name to the semicolon. -/
inductive VarDecl.Derived : Cursor → VarDecl → Cursor → Prop
  | intro {c c₁ c₂ c' : Cursor} {t u : Token} {type : BindingTy} {value : Option Expr}
    (name : c.Passes .identifier t c₁) (binding : BindingDerived c₁ (type, value) c₂)
    (close : c₂.Passes .semicolon u c') :
    Derived c ⟨t.value, type, value, t.span.join c'.previousSpan⟩ c'

theorem VarDecl.Derived.moves {c c' : Cursor} {decl : VarDecl} (h : VarDecl.Derived c decl c') :
    c.Moves c' := by
  cases h with
  | intro name binding close => exact (name.moves.trans binding.moves).trans close.moves

/-! ## Statements -/

section

variable (R : Cursor → Stmt → Cursor → Prop)

/-- Blocks, with respect to a relation for their statements. -/
inductive Block.Derived : Cursor → Block Stmt → Cursor → Prop
  | intro {c c₁ c₂ c' : Cursor} {t u : Token} {body : List Stmt} (start : c.Passes .openCurly t c₁)
    (statements : Sequence R c₁ body c₂) (close : c₂.Passes .closeCurly u c') :
    Derived c (.unresolved body (t.span.join c'.previousSpan)) c'

/-- The second block of a choice, with respect to a relation for its statements. -/
inductive ElseDerived : Cursor → Block Stmt → Cursor → Prop
  /-- A choice directly behind `else` is the only statement of a block without braces. -/
  | nested {c c₁ c' : Cursor} {t : Token} {s : Stmt} (word : c.Passes .elseWord t c₁)
    (isIf : c₁.current.kind = .ifWord) (choice : R c₁ s c') :
    ElseDerived c (.unresolved [s] s.span) c'
  | block {c c₁ c' : Cursor} {t : Token} {b : Block Stmt} (word : c.Passes .elseWord t c₁)
    (block : Block.Derived R c₁ b c') : ElseDerived c b c'
  /-- Without `else` the block has the span of the token before. -/
  | absent {c : Cursor} (kind_ne : c.current.kind ≠ .elseWord) :
    ElseDerived c (.unresolved [] c.previousSpan) c

variable {R} {c c' : Cursor} {b : Block Stmt}

theorem Block.Derived.moves (h : Block.Derived R c b c')
    (hR : ∀ {d s d'}, R d s d' → d.Moves d') : c.Moves c' := by
  cases h with
  | intro start statements close =>
    exact (start.moves.trans (statements.moves hR)).trans close.moves

theorem ElseDerived.moves (h : ElseDerived R c b c') (hR : ∀ {d s d'}, R d s d' → d.Moves d') :
    c.Moves c' := by
  cases h with
  | nested word _ choice => exact word.moves.trans (hR choice)
  | block word block => exact word.moves.trans (block.moves hR)
  | absent => exact .refl c

end

/-- Statements.  The span of each begins with its first token and ends with the last one passed. -/
inductive Stmt.Derived : Cursor → Stmt → Cursor → Prop
  /-- Only a name can be called by a statement, though any number of times. -/
  | call {c c₁ c' : Cursor} {u : Token} {callee : Expr} {arguments : List Expr} {callSpan : Span}
    (isName : c.current.kind = .identifier)
    (called : Expr.Derived c (.call callee arguments callSpan) c₁)
    (headed : callee.isHeaded = true) (close : c₁.Passes .semicolon u c') :
    Derived c (.call callee arguments callSpan (c.current.span.join c'.previousSpan)) c'
  | define {c c' : Cursor} {decl : VarDecl} (defined : VarDecl.Derived c decl c') :
    Derived c (.define decl) c'
  | assign {c c₁ c₂ c' : Cursor} {t u : Token} {e : Expr} (name : c.Passes .identifier t c₁)
    (value : Expr.DerivedAfter .assignment c₁ e c₂) (close : c₂.Passes .semicolon u c') :
    Derived c (.assign t.value e (t.span.join c'.previousSpan)) c'
  | ret {c c₁ c₂ c' : Cursor} {t u : Token} {value : Option Expr} (word : c.Passes .returnWord t c₁)
    (result : Optional Expr.Derived c₁ value c₂) (close : c₂.Passes .semicolon u c') :
    Derived c (.ret value (t.span.join c'.previousSpan)) c'
  | ifThenElse {R : Cursor → Stmt → Cursor → Prop} {c c₁ c₂ c₃ c' : Cursor} {t : Token} {e : Expr}
    {thenBlock elseBlock : Block Stmt} (word : c.Passes .ifWord t c₁)
    (condition : Expr.Derived c₁ e c₂) (first : Block.Derived R c₂ thenBlock c₃)
    (second : ElseDerived R c₃ elseBlock c') (each : ∀ {d s d'}, R d s d' → Derived d s d') :
    Derived c (.ifThenElse e thenBlock elseBlock (t.span.join c'.previousSpan)) c'
  | whileDo {R : Cursor → Stmt → Cursor → Prop} {c c₁ c₂ c' : Cursor} {t : Token} {e : Expr}
    {b : Block Stmt} (word : c.Passes .whileWord t c₁) (condition : Expr.Derived c₁ e c₂)
    (repeated : Block.Derived R c₂ b c') (each : ∀ {d s d'}, R d s d' → Derived d s d') :
    Derived c (.whileDo e b (t.span.join c'.previousSpan)) c'

theorem Stmt.Derived.moves {c c' : Cursor} {s : Stmt} (h : Stmt.Derived c s c') : c.Moves c' := by
  induction h with
  | call _ called _ close => exact called.moves.trans close.moves
  | define defined => exact defined.moves
  | assign name value close => exact (name.moves.trans value.moves).trans close.moves
  | ret word result close =>
    exact (word.moves.trans (result.moves Expr.Derived.moves)).trans close.moves
  | ifThenElse word condition first second _ ih =>
    exact ((word.moves.trans condition.moves).trans (first.moves ih)).trans (second.moves ih)
  | whileDo word condition repeated _ ih =>
    exact (word.moves.trans condition.moves).trans (repeated.moves ih)

/-! ## Functions and programs -/

/-- Parameters, whose types are written out. -/
inductive Parameter.Derived : Cursor → Parameter → Cursor → Prop
  | intro {c c₁ c₂ c' : Cursor} {t u : Token} {b : BindingTy} (name : c.Passes .identifier t c₁)
    (colon : c₁.Passes .colon u c₂) (type : BindingTy.Derived c₂ b c')
    (explicit : b.ty.isPlaceholder = false) :
    Derived c ⟨t.value, b, t.span.join c'.previousSpan⟩ c'

theorem Parameter.Derived.moves {c c' : Cursor} {p : Parameter} (h : Parameter.Derived c p c') :
    c.Moves c' := by
  cases h with
  | intro name colon type => exact (name.moves.trans colon.moves).trans type.moves

/-- Functions.  A semicolon behind the body belongs to the function. -/
inductive FunDecl.Derived : Cursor → FunDecl → Cursor → Prop
  | intro {c c₁ c₂ c₃ c₄ c₅ c₆ c₇ c₈ c₉ c' : Cursor} {t t₁ t₂ t₃ t₄ t₅ : Token}
    {parameters : List Parameter} {result : Ty} {body : Block Stmt} {found : Bool}
    (name : c.Passes .identifier t c₁) (colon : c₁.Passes .colon t₁ c₂)
    (start : c₂.Passes .openParen t₂ c₃)
    (taken : CommaSeparated Parameter.Derived c₃ parameters c₄)
    (close : c₄.Passes .closeParen t₃ c₅) (arrow : c₅.Passes .arrow t₄ c₆)
    (type : Ty.Derived c₆ result c₇) (explicit : result.isPlaceholder = false)
    (sign : c₇.Passes .assignment t₅ c₈) (block : Block.Derived Stmt.Derived c₈ body c₉)
    (semicolon : c₉.Skips .semicolon found c') :
    Derived c ⟨t.value, parameters, result, body, t.span.join c'.previousSpan⟩ c'

theorem FunDecl.Derived.moves {c c' : Cursor} {f : FunDecl} (h : FunDecl.Derived c f c') :
    c.Moves c' := by
  cases h with
  | intro name colon start taken close arrow type _ sign block semicolon =>
    have hfirst := (name.moves.trans colon.moves).trans start.moves
    have hmiddle := (((taken.moves Parameter.Derived.moves).trans close.moves).trans
      arrow.moves).trans (type.moves.trans sign.moves)
    exact (hfirst.trans hmiddle).trans ((block.moves Stmt.Derived.moves).trans semicolon.moves)

/-- Definitions from one cursor to another, and a program before and after they are added. -/
inductive Program.Grows : Program → Cursor → Program → Cursor → Prop
  | done {p : Program} {c : Cursor} : Grows p c p c
  | global {p q : Program} {c c₁ c' : Cursor} {decl : VarDecl} (defined : VarDecl.Derived c decl c₁)
    (more : Grows { p with globals := p.globals ++ [decl] } c₁ q c') : Grows p c q c'
  | function {p q : Program} {c c₁ c' : Cursor} {f : FunDecl} (defined : FunDecl.Derived c f c₁)
    (more : Grows { p with functions := p.functions ++ [f] } c₁ q c') : Grows p c q c'

theorem Program.Grows.trans {p q r : Program} {c c' c'' : Cursor} (h : Program.Grows p c q c')
    (h' : Program.Grows q c' r c'') : Program.Grows p c r c'' := by
  induction h with
  | done => exact h'
  | global defined _ ih => exact .global defined (ih h')
  | function defined _ ih => exact .function defined (ih h')

end TypedImp
