import TypedImp.Proofs.Grammar.Soundness
import TypedImp.Proofs.Printing.Programs

/-!
# What is parsed can be written

Names, digits and string literals come from tokens, and the tokens of a text carry only what fits
their kind.  So whatever is derived from tokens of a text can be written down, which is an induction
on the derivation: of its tokens nothing more is used than that they come from a text.

* `Token.Scanned`, `Cursor.Scanned`: tokens of a text.
* `Expr.Derived.wellFormed`, `Stmt.Derived.wellFormed`, `FunDecl.Derived.wellFormed`: trees that are
  derived from them.
* `wellFormed_of_parse`: whole programs.
-/

namespace TypedImp

/-! ## Scanned tokens -/

/-- Tokens that come from a text: what they carry fits their kind. -/
def Token.Scanned (t : Token) : Prop := t.kind = .endOfInput ∨ Lexed t.kind t.value.toList

/-- All tokens from here on come from a text. -/
def Cursor.Scanned (c : Cursor) : Prop := ∀ t ∈ c.current :: c.ahead, t.Scanned

theorem Cursor.Scanned.current {c : Cursor} (h : c.Scanned) : c.current.Scanned :=
  h c.current List.mem_cons_self

theorem Cursor.Scanned.of_moves {c c' : Cursor} (h : c.Scanned) (hmoves : c.Moves c') :
    c'.Scanned := by
  obtain ⟨passed, -, htokens, -⟩ := hmoves
  intro t ht
  refine h t ?_
  rw [htokens]
  exact List.mem_append_right passed ht

theorem Cursor.Scanned.token {c c' : Cursor} {kind : TokenKind} {t : Token} (h : c.Scanned)
    (hpasses : c.Passes kind t c') : t.Scanned :=
  hpasses.current_eq ▸ h.current

theorem Token.Scanned.lexed {t : Token} {kind : TokenKind} (h : t.Scanned) (hkind : t.kind = kind)
    (hvisible : kind ≠ .endOfInput) : Lexed kind t.value.toList := by
  rcases h with hend | hlexed
  · exact absurd (hkind.symm.trans hend) hvisible
  · rwa [hkind] at hlexed

theorem Lexed.isName {kind : TokenKind} {text : List Char} (h : Lexed kind text)
    (hkind : kind = .identifier) :
    isWord text = true ∧ TokenKind.ofWord (String.ofList text) = .identifier := by
  cases h with
  | word start part =>
    refine ⟨?_, hkind⟩
    rw [isWord, start, List.all_eq_true.mpr part]
    rfl
  | number => cases hkind
  | string => cases hkind
  | sign rule => exact absurd (by simp [hkind]) (Rule.kind_of_sign_mem rule)

theorem Lexed.isDigits {kind : TokenKind} {text : List Char} (h : Lexed kind text)
    (hkind : kind = .number) : isDigits text = true := by
  cases h with
  | word => exact absurd hkind (Lexeme.ofWord_ne (by decide) _)
  | number start part => simpa [TypedImp.isDigits, start] using part
  | string => cases hkind
  | sign rule => exact absurd (by simp [hkind]) (Rule.kind_of_sign_mem rule)

theorem Lexed.inside {kind : TokenKind} {text : List Char} (h : Lexed kind text)
    (hkind : kind = .string) : ∀ c ∈ text, c ≠ '"' ∧ c ≠ '\n' := by
  cases h with
  | word => exact absurd hkind (Lexeme.ofWord_ne (by decide) _)
  | number => cases hkind
  | string part => simpa [isStringPart] using part
  | sign rule => exact absurd (by simp [hkind]) (Rule.kind_of_sign_mem rule)

theorem Token.Scanned.isName {t : Token} (h : t.Scanned) (hkind : t.kind = .identifier) :
    isName t.value = true := by
  obtain ⟨hword, hfree⟩ := (h.lexed hkind (by decide)).isName rfl
  rw [String.ofList_toList] at hfree
  simp [TypedImp.isName, hword, hfree]

theorem Token.Scanned.isDigits {t : Token} (h : t.Scanned) (hkind : t.kind = .number) :
    isDigits t.value.toList = true :=
  (h.lexed hkind (by decide)).isDigits rfl

/-! ## Expressions -/

variable {c c' : Cursor}

theorem Expr.Derived.wellFormed {e : Expr} (h : Expr.Derived c e c') (hc : c.Scanned) :
    e.WellFormed := by
  induction h with
  | integer digits read =>
    have hdigits := (hc.token digits).isDigits digits.kind_eq
    obtain ⟨hle, hvalue⟩ := (readInt32?_eq_some_iff hdigits).mp read
    exact .number (.inl ⟨hdigits, hle, hvalue⟩)
  | decimal whole dot fraction _ read =>
    have hwhole := (hc.token whole).isDigits whole.kind_eq
    have hfraction := ((hc.of_moves (whole.moves.trans dot.moves)).token fraction).isDigits
      fraction.kind_eq
    refine .number ⟨_, _, ?_, hwhole, hfraction, read⟩
    rw [String.toList_append, String.toList_append, List.append_assoc]
    rfl
  | name word => exact .name ((hc.token word).isName word.kind_eq)
  | string quoted =>
    exact .string (((hc.token quoted).lexed quoted.kind_eq (by decide)).inside rfl)
  | isTrue => exact .bool
  | isFalse => exact .bool
  | least sign magnitude read =>
    have hdigits := ((hc.of_moves sign.moves).token magnitude).isDigits magnitude.kind_eq
    refine .number (.inr ⟨rfl, _, ?_, hdigits, (readInt64?_leastMagnitude hdigits).mp read⟩)
    rw [String.toList_append]
    rfl
  | unary operator _ _ ih => exact .unary (ih (hc.of_moves operator.moves))
  | group start _ _ ih => exact ih (hc.of_moves start.moves)
  | binary left operator _ _ ihleft ihright =>
    exact .binary (ihleft hc) (ihright (hc.of_moves (left.moves.trans operator.moves)))
  | call callee start passed _ each ihcallee iheach =>
    have hstart := hc.of_moves (callee.moves.trans start.moves)
    exact .call (ihcallee hc) (passed.forall_mem (fun harg => (each harg).moves)
      fun hmoves harg => iheach harg (hstart.of_moves hmoves))

theorem Expr.DerivedAfter.wellFormed {sign : TokenKind} {e : Expr}
    (h : Expr.DerivedAfter sign c e c') (hc : c.Scanned) : e.WellFormed := by
  cases h with
  | intro word value => exact value.wellFormed (hc.of_moves word.moves)

/-! ## Types and variables -/

theorem isWritten_ofName {name : String} (h : isName name = true) :
    (Ty.ofName name).isWritten false = true := by
  unfold Ty.ofName
  split
  · rfl
  split
  · rfl
  split
  · rfl
  split
  · rfl
  · next hint hfloat hbool hvoid => simp [Ty.isWritten, h, Ty.ofName, hint, hfloat, hbool, hvoid]

theorem isWritten_false : ∀ {t : Ty}, t.isWritten true = true → t.isPlaceholder = false →
    t.isWritten false = true
  | .void, _, _ | .bool, _, _ | .int32, _, _ | .float32, _, _ => rfl
  | .named _, h, _ => h
  | .pointer target, h, hplaceholder => @isWritten_false target h hplaceholder

theorem Ty.Derived.isWritten {t : Ty} (h : Ty.Derived c t c') (hc : c.Scanned) :
    t.isWritten true = true := by
  induction h with
  | name word => exact isWritten_true (isWritten_ofName ((hc.token word).isName word.kind_eq))
  | deduced => rfl
  | pointer star _ ih => exact ih (hc.of_moves star.moves)

theorem BindingTy.Derived.isWritten {b : BindingTy} (h : BindingTy.Derived c b c')
    (hc : c.Scanned) : b.ty.isWritten true = true := by
  cases h with
  | intro word type => exact type.isWritten (hc.of_moves word.moves)

theorem VarDecl.Derived.wellFormed {decl : VarDecl} (h : VarDecl.Derived c decl c')
    (hc : c.Scanned) : decl.WellFormed := by
  cases h with
  | intro name binding =>
    have hname := (hc.token name).isName name.kind_eq
    have hc₁ := hc.of_moves name.moves
    cases binding with
    | inferred value => exact ⟨hname, rfl, (value.wellFormed hc₁).forall_mem_some⟩
    | typed colon type initial =>
      have hc₂ := hc₁.of_moves colon.moves
      exact ⟨hname, type.isWritten hc₂, initial.forall_mem fun hvalue =>
        hvalue.wellFormed (hc₂.of_moves type.moves)⟩

/-! ## Statements -/

/-- Blocks that can be written. -/
def Block.WellFormed (b : Block Stmt) : Prop := b.scope = 0 ∧ ∀ s ∈ b.body, s.WellFormed

theorem Stmt.WellFormed.choice {condition : Expr} {thenBlock elseBlock : Block Stmt} {span : Span}
    (tested : condition.WellFormed) (taken : thenBlock.WellFormed)
    (otherwise : elseBlock.WellFormed) :
    (Stmt.ifThenElse condition thenBlock elseBlock span).WellFormed := by
  obtain ⟨thenBody, _, thenSpan⟩ := thenBlock
  obtain ⟨elseBody, _, elseSpan⟩ := elseBlock
  obtain ⟨rfl, taken⟩ := taken
  obtain ⟨rfl, otherwise⟩ := otherwise
  exact .ifThenElse tested taken otherwise

theorem Stmt.WellFormed.loop {condition : Expr} {body : Block Stmt} {span : Span}
    (tested : condition.WellFormed) (repeated : body.WellFormed) :
    (Stmt.whileDo condition body span).WellFormed := by
  obtain ⟨body, _, bodySpan⟩ := body
  obtain ⟨rfl, repeated⟩ := repeated
  exact .whileDo tested repeated

section

variable {R : Cursor → Stmt → Cursor → Prop} {b : Block Stmt}

theorem Block.Derived.wellFormed (h : Block.Derived R c b c') (hc : c.Scanned)
    (each : ∀ {d s d'}, R d s d' → Stmt.Derived d s d')
    (hR : ∀ {d s d'}, R d s d' → d.Scanned → s.WellFormed) : b.WellFormed := by
  cases h with
  | intro start statements =>
    exact ⟨rfl, statements.forall_mem (fun hs => (each hs).moves) fun hmoves hs =>
      hR hs ((hc.of_moves start.moves).of_moves hmoves)⟩

theorem ElseDerived.wellFormed (h : ElseDerived R c b c') (hc : c.Scanned)
    (each : ∀ {d s d'}, R d s d' → Stmt.Derived d s d')
    (hR : ∀ {d s d'}, R d s d' → d.Scanned → s.WellFormed) : b.WellFormed := by
  cases h with
  | nested word _ choice =>
    exact ⟨rfl, List.forall_mem_singleton.mpr (hR choice (hc.of_moves word.moves))⟩
  | block word block => exact block.wellFormed (hc.of_moves word.moves) each hR
  | absent => exact ⟨rfl, nofun⟩

end

theorem Stmt.Derived.wellFormed {s : Stmt} (h : Stmt.Derived c s c') (hc : c.Scanned) :
    s.WellFormed := by
  induction h with
  | call _ called headed => exact .call (called.wellFormed hc) headed
  | define defined => exact .define (defined.wellFormed hc)
  | assign name value =>
    exact .assign ((hc.token name).isName name.kind_eq) (value.wellFormed (hc.of_moves name.moves))
  | ret word result =>
    exact .ret (result.forall_mem fun hvalue => hvalue.wellFormed (hc.of_moves word.moves))
  | ifThenElse word condition first second each ih =>
    have hc₁ := hc.of_moves word.moves
    have hc₂ := hc₁.of_moves condition.moves
    have hc₃ := hc₂.of_moves (first.moves fun hs => (each hs).moves)
    exact .choice (condition.wellFormed hc₁) (first.wellFormed hc₂ each ih)
      (second.wellFormed hc₃ each ih)
  | whileDo word condition repeated each ih =>
    have hc₁ := hc.of_moves word.moves
    have hc₂ := hc₁.of_moves condition.moves
    exact .loop (condition.wellFormed hc₁) (repeated.wellFormed hc₂ each ih)

/-! ## Functions and programs -/

theorem Parameter.Derived.wellFormed {p : Parameter} (h : Parameter.Derived c p c')
    (hc : c.Scanned) : isName p.name = true ∧ p.type.ty.isWritten false = true := by
  cases h with
  | intro name colon type explicit =>
    have hwritten := type.isWritten (hc.of_moves (name.moves.trans colon.moves))
    exact ⟨(hc.token name).isName name.kind_eq, isWritten_false hwritten explicit⟩

theorem FunDecl.Derived.wellFormed {f : FunDecl} (h : FunDecl.Derived c f c') (hc : c.Scanned) :
    f.WellFormed := by
  cases h with
  | intro name colon start taken close arrow type explicit sign block =>
    have hc₃ := hc.of_moves ((name.moves.trans colon.moves).trans start.moves)
    have hc₆ := hc₃.of_moves
      (((taken.moves Parameter.Derived.moves).trans close.moves).trans arrow.moves)
    have hbody := block.wellFormed (hc₆.of_moves (type.moves.trans sign.moves)) id
      Stmt.Derived.wellFormed
    exact ⟨(hc.token name).isName name.kind_eq,
      taken.forall_mem Parameter.Derived.moves fun hmoves hp => hp.wellFormed (hc₃.of_moves hmoves),
      isWritten_false (type.isWritten hc₆) explicit, hbody.2, hbody.1⟩

theorem Program.Grows.wellFormed {p q : Program} (h : Program.Grows p c q c') (hc : c.Scanned)
    (hp : p.WellFormed) : q.WellFormed := by
  induction h with
  | done => exact hp
  | global defined _ ih =>
    exact ih (hc.of_moves defined.moves) ⟨List.forall_mem_append.mpr
      ⟨hp.globals, List.forall_mem_singleton.mpr (defined.wellFormed hc)⟩, hp.functions⟩
  | function defined _ ih =>
    exact ih (hc.of_moves defined.moves) ⟨hp.globals, List.forall_mem_append.mpr
      ⟨hp.functions, List.forall_mem_singleton.mpr (defined.wellFormed hc)⟩⟩

theorem scanned_of_tokenize {source : String} {tokens : List Token}
    (h : tokenize source = .ok tokens) : (Cursor.ofTokens tokens).Scanned := by
  obtain ⟨-, rfl⟩ := tokenize_eq_ok_iff.mp h
  have hcut : Cut [] source.toList (scan .start source.toList) := cut_scan [] source.toList
  rw [Cursor.Scanned, Cursor.ofTokens_append_end.2]
  exact List.forall_mem_append.mpr
    ⟨fun t ht => .inr (hcut.lexed t ht), List.forall_mem_singleton.mpr (.inl rfl)⟩

/-- **Whatever is parsed can be written.** -/
theorem wellFormed_of_parse {source : String} {tokens : List Token} {p : Program}
    (htokens : tokenize source = .ok tokens) (h : parse tokens = .ok p) : p.WellFormed := by
  have hgrows := grows_of_parse tokens
  rw [h] at hgrows
  obtain ⟨c, hgrows, -⟩ := hgrows
  exact hgrows.wellFormed (scanned_of_tokenize htokens) ⟨nofun, nofun⟩

end TypedImp
