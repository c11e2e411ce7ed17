import TypedImp.Proofs.Grammar.SameWords
import TypedImp.Proofs.Grammar.Soundness
import TypedImp.Proofs.Places.Occupied

/-!
# Parsing lays trees out on tokens

A tree is derived from a row of tokens, from the one at which its derivation begins up to the one at
which it ends.  Here it is shown of every derivation that the nodes of the tree are placed in this
row.

## Which rows are exact

A statement, a block, a parameter and a function are derived from all tokens that are passed, so
each of them has exactly the row that lies between the two cursors.  An expression has not:
parentheses are passed and leave no trace, and the row of the expression is that between them.  For
expressions it is therefore only shown that they are placed somewhere inside.

* `Cursor.Along`: a cursor on its way over the tokens.
* `CommaSeparated.row`, `Sequence.row`: items follow one another in the row.
* `Expr.Derived.inside`, `Stmt.Derived.at`, `FunDecl.Derived.at`: trees.
* `allPlaced_of_parse`: **all nodes of a parsed program are placed**.
-/

namespace TypedImp

/-! ## Cursors on their way -/

/-- A cursor over some tokens that has passed no end of input. -/
structure Cursor.Along (tokens : List Token) (c : Cursor) : Prop where
  reads : c.Over tokens
  passed : ∀ t ∈ c.before, t.kind ≠ .endOfInput

namespace Cursor.Along

variable {tokens : List Token} {c c₁ c₂ c' : Cursor} {kind kind' : TokenKind} {t u : Token}

theorem of_moves (h : c.Along tokens) (hmoves : c.Moves c') : c'.Along tokens := by
  obtain ⟨passed, hpassed, hsplit, hbefore⟩ := hmoves
  refine ⟨?_, ?_⟩
  · rw [Cursor.Over, ← h.reads, hbefore, hsplit, List.reverse_append, List.reverse_reverse,
      List.append_assoc]
  · intro t ht
    rw [hbefore] at ht
    rcases List.mem_append.mp ht with ht | ht
    · exact hpassed t (List.mem_reverse.mp ht)
    · exact h.passed t ht

/-- The token that was passed last stands before the position. -/
theorem previous (h : c.Along tokens) {k : Nat} (hk : c.position = k + 1) :
    ∃ last, tokens[k]? = some last ∧ last.kind ≠ .endOfInput ∧ c.previousSpan = last.span := by
  obtain ⟨last, before, hbefore⟩ : ∃ last before, c.before = last :: before :=
    List.exists_cons_of_length_eq_add_one hk
  have hlength : before.length = k := by
    rw [Cursor.position, hbefore] at hk
    exact Nat.succ.inj hk
  refine ⟨last, ?_, h.passed last (by rw [hbefore]; exact List.mem_cons_self), ?_⟩
  · rw [← h.reads, hbefore, List.reverse_cons, List.append_assoc,
      List.getElem?_append_right (by simp [hlength])]
    simp [hlength]
  · rw [Cursor.previousSpan, hbefore]
    rfl

theorem token (h : c.Along tokens) (hpasses : c.Passes kind t c') :
    tokens[c.position]? = some t :=
  hpasses.current_eq ▸ h.reads.getElem?_current

/-- The span of a token that is passed. -/
theorem span_over (h : c.Along tokens) (hpasses : c.Passes kind t c') :
    t.span.Over tokens c.position c'.position :=
  hpasses.position_eq ▸ .ofToken (h.token hpasses) hpasses.kind_ne

/-- The span from one token to a later one. -/
theorem join_over_tokens (h : c.Along tokens) (hfirst : c.Passes kind t c₁)
    (hmoves : c₁.Moves c₂) (hlast : c₂.Passes kind' u c') :
    (t.span.join u.span).Over tokens c.position c'.position := by
  have hbetween := hfirst.moves.trans hmoves
  exact (h.span_over hfirst).join ((h.of_moves hbetween).span_over hlast) hbetween.position_le

/-- The span from a token up to the last one that is passed. -/
theorem join_over {i : Nat} {first : Token} (h : c.Along tokens) (hfirst : tokens[i]? = some first)
    (hlt : i < c.position) : (first.span.join c.previousSpan).Over tokens i c.position := by
  obtain ⟨k, hk⟩ : ∃ k, c.position = k + 1 := ⟨c.position - 1, by omega⟩
  obtain ⟨last, hlast, hkind, hprevious⟩ := h.previous hk
  rw [hk, hprevious]
  exact .intro (by omega) hfirst hlast hkind rfl rfl

theorem join_over_of_passes (h : c.Along tokens) (hpasses : c.Passes kind t c₁)
    (hmoves : c₁.Moves c') :
    (t.span.join c'.previousSpan).Over tokens c.position c'.position := by
  have hposition := hpasses.position_eq
  have hle := hmoves.position_le
  exact (h.of_moves (hpasses.moves.trans hmoves)).join_over (h.token hpasses) (by omega)

end Cursor.Along

variable {tokens : List Token}

/-! ## Lists -/

section

variable {α : Type} {R : Cursor → α → Cursor → Prop} {node : α → Node} {c c' : Cursor} {as : List α}

/-- Items with commas between them follow one another in the row. -/
theorem CommaSeparated.row (h : CommaSeparated R c as c') (hc : c.Along tokens)
    (hmoves : ∀ {d a d'}, R d a d' → d.Moves d')
    (hR : ∀ {d a d'}, R d a d' → d.Along tokens →
      (node a).Inside tokens d.position d'.position) :
    Row (Node.At tokens) c.position c'.position (as.map node) := by
  induction h with
  | none => exact .nil (Nat.le_refl _)
  | one item => exact (hR item hc).row
  | more item comma _ ih =>
    have hrest := ih (hc.of_moves ((hmoves item).trans comma.moves))
    exact (hR item hc).row_cons (hrest.widen comma.moves.position_le (Nat.le_refl _))

theorem Sequence.row (h : Sequence R c as c') (hc : c.Along tokens)
    (hmoves : ∀ {d a d'}, R d a d' → d.Moves d')
    (hR : ∀ {d a d'}, R d a d' → d.Along tokens → (node a).At tokens d.position d'.position) :
    Row (Node.At tokens) c.position c'.position (as.map node) := by
  induction h with
  | nil => exact .nil (Nat.le_refl _)
  | cons first _ ih => exact .cons (Nat.le_refl _) (hR first hc) (ih (hc.of_moves (hmoves first)))

theorem Optional.row {value : Option α} (h : Optional R c value c') (hc : c.Along tokens)
    (hR : ∀ {d a d'}, R d a d' → d.Along tokens →
      (node a).Inside tokens d.position d'.position) :
    Row (Node.At tokens) c.position c'.position (value.toList.map node) := by
  cases h with
  | absent => exact .nil (Nat.le_refl _)
  | present item => exact (hR item hc).row

end

/-! ## Expressions -/

variable {c c' : Cursor}

/-- An expression with nothing below it. -/
theorem Node.Inside.leaf {e : Expr} {i j : Nat} (hspan : e.span.Over tokens i j)
    (hchildren : (Node.expr e).children = []) : (Node.expr e).Inside tokens i j := by
  refine (Node.At.plain rfl hspan ?_).inside (Nat.le_refl i) (Nat.le_refl j)
  rw [hchildren]
  exact .nil (Nat.le_of_lt hspan.lt)

theorem Expr.Derived.inside {e : Expr} (h : Expr.Derived c e c') (hc : c.Along tokens) :
    (Node.expr e).Inside tokens c.position c'.position := by
  induction h with
  | integer digits => exact .leaf (hc.span_over digits) rfl
  | decimal whole dot fraction => exact .leaf (hc.join_over_tokens whole dot.moves fraction) rfl
  | name word => exact .leaf (hc.span_over word) rfl
  | string quoted => exact .leaf (hc.span_over quoted) rfl
  | isTrue word => exact .leaf (hc.span_over word) rfl
  | isFalse word => exact .leaf (hc.span_over word) rfl
  | least sign magnitude => exact .leaf (hc.join_over_tokens sign (.refl _) magnitude) rfl
  | unary operator _ _ ih =>
    obtain ⟨i, j, hi, hj, hat⟩ := ih (hc.of_moves operator.moves)
    have hle := Nat.le_trans operator.moves.position_le hi
    have hspan := (hc.span_over operator).join hat.extent hle
    have hinside := hat.inside hle (Nat.le_refl j)
    exact (Node.At.plain rfl hspan hinside.row).inside (Nat.le_refl _) hj
  | group start _ close ih =>
    exact (ih (hc.of_moves start.moves)).widen start.moves.position_le close.moves.position_le
  | binary left operator _ _ ihleft ihright =>
    have hle := operator.moves.position_le
    obtain ⟨i, j, hi, hj, hat⟩ := ihleft hc
    obtain ⟨i', j', hi', hj', hat'⟩ := ihright (hc.of_moves (left.moves.trans operator.moves))
    have hlt := hat.extent.lt
    have hspan := hat.extent.join hat'.extent (by omega)
    have hright := hat'.inside (Nat.le_trans hle hi') (Nat.le_refl j')
    have hrow := (hat.inside (Nat.le_refl i) hj).row_cons hright.row
    exact (Node.At.plain rfl hspan hrow).inside hi hj'
  | call callee start passed close each ihcallee iheach =>
    have hc₂ := hc.of_moves (callee.moves.trans start.moves)
    have hpassed := passed.moves fun harg => (each harg).moves
    have hstart := start.moves.position_le
    have hle := hpassed.position_le
    have hclose := close.moves.position_le
    obtain ⟨i, j, hi, hj, hat⟩ := ihcallee hc
    have hlt := hat.extent.lt
    have hspan := hat.extent.join ((hc₂.of_moves hpassed).span_over close) (by omega)
    have hrow := passed.row hc₂ (fun harg => (each harg).moves) iheach
    have hchildren := (hat.inside (Nat.le_refl i) hj).row_cons (hrow.widen hstart hclose)
    exact (Node.At.plain rfl hspan hchildren).inside hi (Nat.le_refl _)

theorem Expr.DerivedAfter.inside {sign : TokenKind} {e : Expr}
    (h : Expr.DerivedAfter sign c e c') (hc : c.Along tokens) :
    (Node.expr e).Inside tokens c.position c'.position := by
  cases h with
  | intro word value =>
    exact (value.inside (hc.of_moves word.moves)).widen word.moves.position_le (Nat.le_refl _)

/-! ## Statements -/

theorem BindingDerived.row {b : BindingTy × Option Expr} (h : BindingDerived c b c')
    (hc : c.Along tokens) :
    Row (Node.At tokens) c.position c'.position (b.2.toList.map .expr) := by
  cases h with
  | inferred value => exact (value.inside hc).row
  | typed colon type initial =>
    have hmoves := colon.moves.trans type.moves
    exact (initial.row (hc.of_moves hmoves) Expr.DerivedAfter.inside).widen hmoves.position_le
      (Nat.le_refl _)

theorem VarDecl.Derived.at {decl : VarDecl} (h : VarDecl.Derived c decl c')
    (hc : c.Along tokens) : (Node.stmt (.define decl)).At tokens c.position c'.position := by
  cases h with
  | intro name binding close =>
    have hrow := binding.row (hc.of_moves name.moves)
    exact .plain rfl (hc.join_over_of_passes name (binding.moves.trans close.moves))
      (hrow.widen name.moves.position_le close.moves.position_le)

section

variable {R : Cursor → Stmt → Cursor → Prop} {b : Block Stmt}

theorem Block.Derived.at (h : Block.Derived R c b c') (hc : c.Along tokens)
    (each : ∀ {d s d'}, R d s d' → Stmt.Derived d s d')
    (hR : ∀ {d s d'}, R d s d' → d.Along tokens →
      (Node.stmt s).At tokens d.position d'.position) :
    (Node.block b).At tokens c.position c'.position := by
  cases h with
  | intro start statements close =>
    have hbody := statements.moves fun hs => (each hs).moves
    have hrow := statements.row (hc.of_moves start.moves) (fun hs => (each hs).moves) hR
    exact .plain rfl (hc.join_over_of_passes start (hbody.trans close.moves))
      (hrow.widen start.moves.position_le close.moves.position_le)

/-- The block behind `else` begins one token further on.  Where there is none, some token has been
passed before. -/
theorem ElseDerived.part (h : ElseDerived R c b c') (hc : c.Along tokens) (hpos : 0 < c.position)
    (each : ∀ {d s d'}, R d s d' → Stmt.Derived d s d')
    (hR : ∀ {d s d'}, R d s d' → d.Along tokens →
      (Node.stmt s).At tokens d.position d'.position) :
    ElsePart tokens (Node.At tokens) c.position c'.position b := by
  cases h with
  | nested word _ choice =>
    have hnested := hR choice (hc.of_moves word.moves)
    -- a block that is nothing but the nested choice
    have hblock : (Node.block (.unresolved [_] (Stmt.span _))).At tokens _ _ :=
      .plain rfl hnested.extent (hnested.inside (Nat.le_refl _) (Nat.le_refl _)).row
    exact .present (hc.token word) word.kind_eq (word.position_eq ▸ hblock)
  | block word block =>
    have hblock := block.at (hc.of_moves word.moves) each hR
    exact .present (hc.token word) word.kind_eq (word.position_eq ▸ hblock)
  | absent kind_ne =>
    obtain ⟨k, hk⟩ : ∃ k, c.position = k + 1 := ⟨c.position - 1, by omega⟩
    obtain ⟨last, hlast, -, hprevious⟩ := hc.previous hk
    have hcurrent := hc.reads.getElem?_current
    rw [hk] at hcurrent ⊢
    exact .lacking hcurrent kind_ne hlast rfl hprevious

end

theorem Stmt.Derived.at {s : Stmt} (h : Stmt.Derived c s c') (hc : c.Along tokens) :
    (Node.stmt s).At tokens c.position c'.position := by
  induction h with
  | call _ called _ close =>
    have hinside := called.inside hc
    have hle := called.moves.position_le
    have hposition := close.position_eq
    have hover := (hc.of_moves (called.moves.trans close.moves)).join_over
      hc.reads.getElem?_current (by omega)
    exact .plain rfl hover (hinside.widen (Nat.le_refl _) close.moves.position_le).row
  | define defined => exact defined.at hc
  | assign name value close =>
    have hinside := value.inside (hc.of_moves name.moves)
    exact .plain rfl (hc.join_over_of_passes name (value.moves.trans close.moves))
      (hinside.widen name.moves.position_le close.moves.position_le).row
  | ret word result close =>
    have hresult := result.moves Expr.Derived.moves
    have hrow := result.row (hc.of_moves word.moves) Expr.Derived.inside
    exact .plain rfl (hc.join_over_of_passes word (hresult.trans close.moves))
      (hrow.widen word.moves.position_le close.moves.position_le)
  | ifThenElse word condition first second each ih =>
    have hc₁ := hc.of_moves word.moves
    have hc₂ := hc₁.of_moves condition.moves
    have hfirst := first.moves fun hs => (each hs).moves
    have hsecond := second.moves fun hs => (each hs).moves
    have hcondition := condition.inside hc₁
    have hthen := first.at hc₂ each ih
    have hpos := Nat.lt_of_le_of_lt (Nat.zero_le _) hthen.extent.lt
    exact .choice (hc.join_over_of_passes word ((condition.moves.trans hfirst).trans hsecond))
      (hcondition.widen word.moves.position_le (Nat.le_refl _)) hthen
      (second.part (hc₂.of_moves hfirst) hpos each ih)
  | whileDo word condition repeated each ih =>
    have hc₁ := hc.of_moves word.moves
    have hbody := repeated.moves fun hs => (each hs).moves
    have hcondition := condition.inside hc₁
    have hblock := repeated.at (hc₁.of_moves condition.moves) each ih
    refine .plain rfl (hc.join_over_of_passes word (condition.moves.trans hbody)) ?_
    exact (hcondition.widen word.moves.position_le (Nat.le_refl _)).row_cons
      (hblock.inside (Nat.le_refl _) (Nat.le_refl _)).row

/-! ## Functions and programs -/

theorem Parameter.Derived.inside {p : Parameter} (h : Parameter.Derived c p c')
    (hc : c.Along tokens) : (Node.parameter p).Inside tokens c.position c'.position := by
  have hle := h.moves.position_le
  cases h with
  | intro name colon type =>
    have hover := hc.join_over_of_passes name (colon.moves.trans type.moves)
    exact (Node.At.plain rfl hover (.nil hle)).inside (Nat.le_refl _) (Nat.le_refl _)

theorem FunDecl.Derived.at {f : FunDecl} (h : FunDecl.Derived c f c') (hc : c.Along tokens) :
    (Node.function f).At tokens c.position c'.position := by
  cases h with
  | intro name colon start taken close arrow type _ sign block semicolon =>
    have hfirst := colon.moves.trans start.moves
    have htaken := taken.moves Parameter.Derived.moves
    have hbetween := ((close.moves.trans arrow.moves).trans type.moves).trans sign.moves
    have hblock := block.moves Stmt.Derived.moves
    have hc₃ := hc.of_moves (name.moves.trans hfirst)
    have hparameters := taken.row hc₃ Parameter.Derived.moves Parameter.Derived.inside
    have hbody := block.at (hc₃.of_moves (htaken.trans hbetween)) id Stmt.Derived.at
    have hover := hc.join_over_of_passes name
      (((hfirst.trans htaken).trans hbetween).trans (hblock.trans semicolon.moves))
    refine .plain rfl hover ?_
    exact (hparameters.widen (name.moves.trans hfirst).position_le hbetween.position_le).append
      (hbody.inside (Nat.le_refl _) semicolon.moves.position_le).row

/-- All nodes of a program are placed. -/
def Program.AllPlaced (tokens : List Token) (p : Program) : Prop :=
  ∀ root ∈ p.roots, root.AllPlaced tokens

theorem Program.allPlaced_iff {p : Program} :
    p.AllPlaced tokens ↔ (∀ decl ∈ p.globals, (Node.stmt (.define decl)).AllPlaced tokens) ∧
      ∀ f ∈ p.functions, (Node.function f).AllPlaced tokens := by
  rw [AllPlaced, roots, List.forall_mem_append, List.forall_mem_map, List.forall_mem_map]

theorem Program.Grows.allPlaced {p q : Program} (h : Program.Grows p c q c')
    (hc : c.Along tokens) (hp : p.AllPlaced tokens) : q.AllPlaced tokens := by
  induction h with
  | done => exact hp
  | global defined _ ih =>
    obtain ⟨hglobals, hfunctions⟩ := Program.allPlaced_iff.mp hp
    exact ih (hc.of_moves defined.moves) (Program.allPlaced_iff.mpr ⟨List.forall_mem_append.mpr
      ⟨hglobals, List.forall_mem_singleton.mpr (defined.at hc).all⟩, hfunctions⟩)
  | function defined _ ih =>
    obtain ⟨hglobals, hfunctions⟩ := Program.allPlaced_iff.mp hp
    exact ih (hc.of_moves defined.moves) (Program.allPlaced_iff.mpr ⟨hglobals,
      List.forall_mem_append.mpr
        ⟨hfunctions, List.forall_mem_singleton.mpr (defined.at hc).all⟩⟩)

theorem along_of_tokenize {source : String} {tokens : List Token}
    (h : tokenize source = .ok tokens) : (Cursor.ofTokens tokens).Along tokens := by
  refine ⟨(over_of_tokenize h).1, ?_⟩
  rw [Cursor.before_ofTokens]
  nofun

/-- **All nodes of a parsed program are placed.** -/
theorem allPlaced_of_parse {source : String} {tokens : List Token} {p : Program}
    (scanned : tokenize source = .ok tokens) (parsed : parse tokens = .ok p) :
    p.AllPlaced tokens := by
  have hgrows := grows_of_parse tokens
  rw [parsed] at hgrows
  obtain ⟨c, hgrows, -⟩ := hgrows
  exact hgrows.allPlaced (along_of_tokenize scanned) nofun

end TypedImp
