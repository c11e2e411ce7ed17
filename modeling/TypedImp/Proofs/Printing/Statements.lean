import TypedImp.Grammar.Programs
import TypedImp.Proofs.Printing.Expressions

/-!
# Reading statements back

Types, definitions of variables and statements are parsed from their words.  Which statement begins
with a name is decided by the next two tokens, so the lemmas here also say what these are: a
definition has `:=`, or `:` without a parenthesis behind it, and a call has a parenthesis.

A statement must not be followed by `else`, which would belong to it.  Inside a block another
statement or a brace follows, and behind the first block of a choice its own `else`.

* `type_gives`, `explicitType_gives`: types.
* `varDecl_gives`, `assign_gives`, `call_gives`, `return_gives`: statements without blocks.
* `Stmt.ReadsBack`, `block_gives`, `else_gives`: statements that are read back, and blocks of them.
* `stmt_readsBack`: all statements that can be written.
-/

namespace TypedImp

open Parse

variable {c c' : Cursor}

/-! ## Types -/

theorem nameType_gives {t : Ty} (hspelling : .ofName t.spelling = t)
    (hspells : c.Spells [.name t.spelling] c') : Gives 1 (fun _ => nameType) c t c' := by
  obtain ⟨kind_eq, value_eq, -, more⟩ := hspells.of_token
  cases more
  refine .const ?_
  rw [nameType, bind_of_ok (expect_apply kind_eq), String.toList_inj.mp value_eq, hspelling]
  rfl

/-- A type that begins with a name. -/
theorem type_gives_of_name {t : Ty} (hspelling : .ofName t.spelling = t)
    (hspells : c.Spells [.name t.spelling] c') : Gives 2 (type .standard) c t c' := by
  have hname := nameType_gives hspelling hspells
  refine .succ ?_
  simp only [type]
  refine .currentKind ?_
  rw [show c.current.kind = .identifier from hspells.kind_eq]
  exact hname

/-- **Types are read back.** -/
theorem type_gives : ∀ {t : Ty} {c : Cursor}, t.isWritten true = true → c.Ends →
    c.Spells t.words c' → Gives 2 (type .standard) c t c'
  | .void, _, _, _, hspells => type_gives_of_name rfl hspells
  | .bool, _, _, _, hspells => type_gives_of_name rfl hspells
  | .int32, _, _, _, hspells => type_gives_of_name rfl hspells
  | .float32, _, _, _, hspells => type_gives_of_name rfl hspells
  | .named name, _, hwritten, _, hspells => by
    simp only [Ty.isWritten, Bool.and_eq_true, decide_eq_true_eq] at hwritten
    exact type_gives_of_name hwritten.2 hspells
  | .deduced, c, _, hc, hspells => by
    rw [Ty.words] at hspells
    obtain ⟨kind_eq, -, -, more⟩ := hspells.of_token
    cases more
    refine .succ ?_
    simp only [type]
    refine .currentKind ?_
    rw [show c.current.kind = .underscore from kind_eq]
    refine .const ?_
    exact bind_of_ok (expect_apply (by rw [kind_eq]; rfl))
  | .pointer target, c, hwritten, hc, hspells => by
    rw [Ty.words] at hspells
    obtain ⟨kind_eq, -, visible, more⟩ := hspells.of_token
    have htarget := type_gives (t := target) hwritten hc.advance more
    refine .succ ?_
    simp only [type]
    refine .currentKind ?_
    rw [kind_eq]
    refine .succ ?_
    simp only [pointerType]
    refine .expect hc kind_eq visible ?_
    exact htarget.along (by omega) more.moves (.pure _)
  | .unspecified, _, hwritten, _, _ => nomatch hwritten
  | .function .., _, hwritten, _, _ => nomatch hwritten

/-- A type without the placeholder is one in which the placeholder would be allowed. -/
theorem isWritten_true : ∀ {t : Ty}, t.isWritten false = true → t.isWritten true = true
  | .void, _ | .bool, _ | .int32, _ | .float32, _ => rfl
  | .named _, h => h
  | .pointer target, h => @isWritten_true target h

theorem isPlaceholder_eq_false : ∀ {t : Ty}, t.isWritten false = true → t.isPlaceholder = false
  | .void, _ | .bool, _ | .int32, _ | .float32, _ | .named _, _ => rfl
  | .pointer target, h => @isPlaceholder_eq_false target h

/-- The kinds of tokens that a type begins with. -/
theorem type_kind {t : Ty} {ws : List Word} (hspells : c.Spells (t.words ++ ws) c') :
    c.current.kind = .identifier ∨ c.current.kind = .star ∨
      c.current.kind = .underscore ∧ t = .deduced := by
  cases t with
  | pointer target => exact .inr (.inl hspells.kind_eq)
  | deduced => exact .inr (.inr ⟨hspells.kind_eq, rfl⟩)
  | _ => exact .inl hspells.kind_eq

theorem explicitType_gives {t : Ty} (hwritten : t.isWritten false = true) (hc : c.Ends)
    (hspells : c.Spells t.words c') (message : String) :
    Gives 2 (explicitType .standard · message) c t c' := by
  have hshown : c.current.kind ≠ .underscore := by
    rw [← List.append_nil t.words] at hspells
    rcases type_kind hspells with h | h | ⟨-, rfl⟩
    · rw [h]; decide
    · rw [h]; decide
    · cases hwritten
  simp only [explicitType]
  refine .currentKind ?_
  simp only [if_neg hshown]
  refine (type_gives (isWritten_true hwritten) hc hspells).along (Nat.le_refl _) hspells.moves ?_
  simp only [isPlaceholder_eq_false hwritten]
  exact .pure t

/-- The word that makes a variable mutable is passed if it stands there. -/
theorem Gives.skipMutable {α : Type} {d : Nat} {c'' : Cursor} {b : BindingTy}
    {f : Nat → Bool → Parse α} {a : α} (hc : c.Ends) (hspells : c.Spells b.words c')
    (h : ∀ c : Cursor, c.Ends → c.Spells b.ty.words c' → Gives d (f · b.isMutable) c a c'') :
    Gives d (fun fuel => Parse.skip .mutableWord >>= f fuel) c a c'' := by
  obtain ⟨t, isMutable⟩ := b
  cases isMutable with
  | true =>
    rw [BindingTy.words, if_pos rfl] at hspells
    obtain ⟨kind_eq, -, visible, more⟩ := hspells.of_token
    exact .skip hc kind_eq visible ((h c.advance hc.advance more).mono (by omega))
  | false =>
    have hspells : c.Spells t.words c' := hspells
    have hother : c.current.kind ≠ .mutableWord := by
      rw [← List.append_nil t.words] at hspells
      rcases type_kind hspells with h | h | ⟨h, -⟩ <;> rw [h] <;> decide
    exact .stay hother (h c hc hspells)

theorem bindingType_gives {b : BindingTy} (hwritten : b.ty.isWritten true = true) (hc : c.Ends)
    (hspells : c.Spells b.words c') : Gives 2 (bindingType .standard) c b c' := by
  refine .skipMutable hc hspells fun d hd hspells => ?_
  exact (type_gives hwritten hd hspells).along (Nat.le_refl _) hspells.moves (.pure _)

/-! ## Variables -/

/-- A value, and behind it a semicolon. -/
theorem value_gives {value : Expr} (h : value.WellFormed) (hc : c.Ends)
    (hspells : c.Spells value.words c') (hnext : c'.current.kind = .semicolon) :
    ∃ value', value'.erase = value.erase ∧ Gives 3 (expr .standard · .lowest) c value' c' :=
  (readsBack h).gives hc hspells (by rw [hnext]; decide) (by rw [hnext]; rfl)

/-- The type and the value of a variable, and behind them a semicolon. -/
theorem typeAndValue_gives {type : BindingTy} {value : Option Expr}
    (htype : type.ty.isWritten true = true) (hvalue : ∀ e ∈ value, e.WellFormed) (hc : c.Ends)
    (hspells : c.Spells (bindingWords type value) c') (hnext : c'.current.kind = .semicolon) :
    ∃ value', value'.map Expr.erase = value.map Expr.erase ∧
      Gives 0 (typeAndValue .standard) c (type, value') c' := by
  unfold bindingWords at hspells
  unfold typeAndValue
  split at hspells
  · next value =>
    -- only a value
    obtain ⟨kind_eq, -, visible, more⟩ := hspells.of_token
    obtain ⟨value', herase, hgives⟩ := value_gives (hvalue value rfl) hc.advance more hnext
    refine ⟨some value', congrArg some herase, .skip hc kind_eq visible ?_⟩
    exact hgives.along (by omega) more.moves (.pure _)
  · next value _ =>
    -- a type and a value
    obtain ⟨kind_eq, -, visible, more⟩ := hspells.of_token
    obtain ⟨d, htypes, hmore⟩ := Cursor.spells_append more
    have hd := htypes.moves.ends hc.advance
    obtain ⟨kind_eq', -, visible', more'⟩ := hmore.of_token
    obtain ⟨value', herase, hgives⟩ := value_gives (hvalue value rfl) hd.advance more' hnext
    refine ⟨some value', congrArg some herase, .stay (by rw [kind_eq]; decide) ?_⟩
    refine .expect hc kind_eq visible ?_
    refine (bindingType_gives htype hc.advance htypes).along (by omega) htypes.moves ?_
    refine .along (e := 4) ?_ (Nat.le_refl _) ?_ (.pure _)
    · unfold valueAfter
      refine .skip hd kind_eq' visible' ?_
      exact hgives.along (by omega) more'.moves (.pure _)
    · exact (Cursor.moves_advance d).trans more'.moves
  · -- only a type
    obtain ⟨kind_eq, -, visible, more⟩ := hspells.of_token
    refine ⟨none, rfl, .stay (by rw [kind_eq]; decide) ?_⟩
    refine .expect hc kind_eq visible ?_
    refine (bindingType_gives htype hc.advance more).along (by omega) more.moves ?_
    refine .along (e := 4) ?_ (Nat.le_refl _) (.refl c') (.pure _)
    exact .stay (by rw [hnext]; decide) (.pure none)

/-- **Definitions of variables are read back.** -/
theorem varDecl_gives {decl : VarDecl} (h : decl.WellFormed) (hc : c.Ends)
    (hspells : c.Spells decl.words c') :
    ∃ decl', decl'.erase = decl.erase ∧ Gives 0 (varDecl .standard) c decl' c' := by
  obtain ⟨kind_eq, value_eq, visible, more⟩ := hspells.of_token
  obtain ⟨d, hvalue, hlast⟩ := Cursor.spells_append more
  have hd := hvalue.moves.ends hc.advance
  obtain ⟨kind_eq', -, visible', more'⟩ := hlast.of_token
  cases more'
  obtain ⟨value', herase, hgives⟩ :=
    typeAndValue_gives h.typed h.initial hc.advance hvalue kind_eq'
  refine ⟨⟨c.current.value, decl.type, value', c.current.span.join d.advance.previousSpan⟩,
    ?_, ?_⟩
  · rw [VarDecl.erase, VarDecl.erase, herase, String.toList_inj.mp value_eq]
  · unfold varDecl
    refine .expect hc kind_eq visible ?_
    refine hgives.along (by omega) hvalue.moves ?_
    exact .expect hd kind_eq' visible' (.spanFrom (.pure _))

/-! ## Statements without blocks -/

theorem Cursor.peek_two {c : Cursor} (hc : c.Ends) (hcurrent : c.current.kind ≠ .endOfInput)
    (hnext : c.advance.current.kind ≠ .endOfInput) :
    c.peek 2 = c.advance.advance.current := by
  obtain ⟨t, ts, hahead⟩ := List.exists_cons_of_ne_nil (Cursor.ahead_ne_nil hc hcurrent)
  have hadvance := Cursor.advance_of_cons hcurrent hahead
  rw [← Cursor.peek_one hc.advance hnext, hadvance, Cursor.peek, Cursor.peek, hahead]
  cases ts with
  | nil => rfl
  | cons => rfl

/-- The tokens behind the name of a variable that is defined, as far as it takes to tell what is
defined. -/
theorem varDecl_kinds {decl : VarDecl} (hc : c.Ends) (hspells : c.Spells decl.words c') :
    c.current.kind = .identifier ∧ ((c.peek 1).kind = .colonEquals ∨
      (c.peek 1).kind = .colon ∧ (c.peek 2).kind ≠ .openParen) := by
  have htype : ∀ {d : Cursor} {ws : List Word}, d.Spells (decl.type.words ++ ws) c' →
      d.current.kind ≠ .openParen := by
    intro d ws hspells
    obtain ⟨name, ⟨t, isMutable⟩, value, span⟩ := decl
    cases isMutable with
    | true => rw [show d.current.kind = .mutableWord from hspells.kind_eq]; decide
    | false => rcases type_kind hspells with h | h | ⟨h, -⟩ <;> rw [h] <;> decide
  obtain ⟨kind_eq, -, visible, more⟩ := hspells.of_token
  have hvisible := kind_eq ▸ visible
  refine ⟨kind_eq, ?_⟩
  rw [Cursor.peek_one hc hvisible]
  unfold bindingWords at more
  split at more
  · exact .inl more.kind_eq
  · rw [List.cons_append, List.append_assoc] at more
    obtain ⟨kind_eq', -, visible', more'⟩ := more.of_token
    rw [Cursor.peek_two hc hvisible (kind_eq' ▸ visible')]
    exact .inr ⟨kind_eq', htype more'⟩
  · obtain ⟨kind_eq', -, visible', more'⟩ := more.of_token
    rw [Cursor.peek_two hc hvisible (kind_eq' ▸ visible')]
    exact .inr ⟨kind_eq', htype more'⟩

/-- What parses a statement, by the rule of its first token. -/
def ruleStmt : StmtRule → (fuel : Nat) → Parse Stmt
  | .identifier => identifierStmt .standard
  | .ifThenElse => ifStmt .standard
  | .whileDo => whileStmt .standard
  | .ret => returnStmt .standard

theorem stmt_eq_ruleStmt {rule : StmtRule} {fuel : Nat}
    (h : Grammar.standard.stmt c.current.kind = some rule) :
    stmt .standard (fuel + 1) c = ruleStmt rule fuel c := by
  simp only [stmt]
  rw [currentKind_bind, h]
  cases rule <;> rfl

theorem stmt_gives {rule : StmtRule} {s : Stmt}
    (hrule : Grammar.standard.stmt c.current.kind = some rule)
    (h : Gives 3 (ruleStmt rule) c s c') : Gives 4 (stmt .standard) c s c' :=
  .succ fun fuel hfuel => (stmt_eq_ruleStmt hrule).trans (h fuel hfuel)

theorem define_gives {decl : VarDecl} (h : decl.WellFormed) (hc : c.Ends)
    (hspells : c.Spells decl.words c') :
    ∃ s, s.erase = (Stmt.define decl).erase ∧ Gives 4 (stmt .standard) c s c' := by
  obtain ⟨decl', herase, hgives⟩ := varDecl_gives h hc hspells
  have hdecl : Gives 3 (fun fuel => varDecl .standard fuel >>= fun decl =>
      return Stmt.define decl) c (.define decl') c' :=
    hgives.along (by omega) hspells.moves (.pure _)
  obtain ⟨hkind, hnext⟩ := varDecl_kinds hc hspells
  refine ⟨.define decl', by rw [Stmt.erase, Stmt.erase, herase], ?_⟩
  refine stmt_gives (by rw [hkind]; rfl) ?_
  simp only [ruleStmt]
  refine .peekKind (.peekKind ?_)
  rcases hnext with hnext | ⟨hnext, hother⟩
  · rw [hnext]
    exact hdecl
  · rw [hnext]
    split
    · next heq => exact absurd heq hother
    · exact hdecl
    · exact hdecl
    · next heq => cases heq
    · next hcolon _ _ _ => exact (hcolon rfl).elim

theorem assign_gives {name : String} {value : Expr} {span : Span} (h : value.WellFormed)
    (hc : c.Ends) (hspells : c.Spells (Stmt.assign name value span).words c') :
    ∃ s, s.erase = (Stmt.assign name value span).erase ∧ Gives 4 (stmt .standard) c s c' := by
  rw [Stmt.words] at hspells
  obtain ⟨kind_eq, value_eq, visible, more⟩ := hspells.of_token
  obtain ⟨kind_eq', -, visible', more'⟩ := more.of_token
  obtain ⟨d, hvalue, hlast⟩ := Cursor.spells_append more'
  have hd := hvalue.moves.ends hc.advance.advance
  obtain ⟨kind_eq'', -, visible'', more''⟩ := hlast.of_token
  cases more''
  obtain ⟨value', herase, hgives⟩ := value_gives h hc.advance.advance hvalue kind_eq''
  refine ⟨.assign c.current.value value' (c.current.span.join d.advance.previousSpan), ?_, ?_⟩
  · rw [Stmt.erase, Stmt.erase, herase, String.toList_inj.mp value_eq]
  · refine stmt_gives (by rw [kind_eq]; rfl) ?_
    simp only [ruleStmt]
    refine .peekKind (.peekKind ?_)
    rw [Cursor.peek_one hc (kind_eq ▸ visible), kind_eq']
    refine .expect hc kind_eq visible (.expect hc.advance kind_eq' visible' ?_)
    refine hgives.along (by omega) hvalue.moves ?_
    exact .expect hd kind_eq'' visible'' (.spanFrom (.pure _))

/-- What is called by name stands without parentheses. -/
theorem headed_bare {callee : Expr} (h : callee.isHeaded = true) :
    decide (callee.precedence < .call) = false := by
  cases callee with
  | name => rfl
  | call => rfl
  | _ => cases h

/-- A name that is called begins with the name and an opening parenthesis. -/
theorem headed_kinds {callee : Expr} (h : callee.isHeaded = true) {ws : List Word}
    (hspells : c.Spells (callee.words ++ .openParen :: ws) c') :
    c.current.kind = .identifier ∧ c.advance.current.kind = .openParen := by
  induction callee using Expr.isHeaded.induct generalizing ws with
  | case1 n span =>
    rw [Expr.words] at hspells
    obtain ⟨kind_eq, -, -, more⟩ := hspells.of_token
    exact ⟨kind_eq, more.kind_eq⟩
  | case2 callee arguments span ih =>
    rw [Expr.isHeaded] at h
    rw [Expr.words, headed_bare h, List.append_assoc] at hspells
    exact ih h hspells
  | case3 e hname hcall =>
    cases e with
    | name n span => exact absurd rfl (hname n span)
    | call callee arguments span => exact absurd rfl (hcall callee arguments span)
    | _ => cases h

theorem exists_call_of_erase {e callee : Expr} {arguments : List Expr} {span : Span}
    (h : e.erase = (Expr.call callee arguments span).erase) :
    ∃ callee' arguments' span', e = .call callee' arguments' span' ∧
      callee'.erase = callee.erase ∧ Expr.eraseAll arguments' = Expr.eraseAll arguments := by
  cases e with
  | call callee' arguments' span' =>
    rw [Expr.erase, Expr.erase] at h
    injection h with hcallee harguments
    exact ⟨callee', arguments', span', rfl, hcallee, harguments⟩
  | _ => simp [Expr.erase] at h

theorem call_gives {callee : Expr} {arguments : List Expr} {callSpan span : Span}
    (h : (Expr.call callee arguments callSpan).WellFormed) (hheaded : callee.isHeaded = true)
    (hc : c.Ends) (hspells : c.Spells (Stmt.call callee arguments callSpan span).words c') :
    ∃ s, s.erase = (Stmt.call callee arguments callSpan span).erase ∧
      Gives 4 (stmt .standard) c s c' := by
  rw [Stmt.words] at hspells
  obtain ⟨d, hcall, hlast⟩ := Cursor.spells_append hspells
  have hd := hcall.moves.ends hc
  obtain ⟨kind_eq, -, visible, more⟩ := hlast.of_token
  cases more
  obtain ⟨e', herase, hgives⟩ := value_gives h hc hcall kind_eq
  obtain ⟨callee', arguments', span', rfl, hcallee, harguments⟩ := exists_call_of_erase herase
  refine ⟨.call callee' arguments' span' (c.current.span.join d.advance.previousSpan), ?_, ?_⟩
  · rw [Stmt.erase, Stmt.erase, hcallee, harguments]
  · have hmoves := hcall.moves
    rw [Expr.words, headed_bare hheaded] at hcall
    obtain ⟨hname, hparen⟩ := headed_kinds hheaded hcall
    refine stmt_gives (by rw [hname]; rfl) ?_
    simp only [ruleStmt]
    refine .peekKind (.peekKind ?_)
    rw [Cursor.peek_one hc (by rw [hname]; decide), hparen]
    refine .get (hgives.along (Nat.le_refl _) hmoves ?_)
    exact .expect hd kind_eq visible (.spanFrom (.pure _))

/-- The value before a semicolon, if there is one. -/
theorem optionalValue_gives {value : Expr} (h : value.WellFormed) (hc : c.Ends)
    (hspells : c.Spells value.words c') (hnext : c'.current.kind = .semicolon) :
    ∃ value', value'.erase = value.erase ∧
      Gives 3 (optionalValue .standard) c (some value') c' := by
  have hstart := (readsBack h).start_ne_none hc hspells (by rw [hnext]; decide) (by rw [hnext]; rfl)
  have hother : c.current.kind ≠ .semicolon := fun heq => hstart (by rw [heq]; rfl)
  obtain ⟨value', herase, hgives⟩ := value_gives h hc hspells hnext
  refine ⟨value', herase, ?_⟩
  unfold optionalValue
  refine .currentKind ?_
  simp only [if_neg hother]
  exact hgives.along (Nat.le_refl _) hspells.moves (.pure _)

theorem return_gives {value : Option Expr} {span : Span} (h : ∀ e ∈ value, e.WellFormed)
    (hc : c.Ends) (hspells : c.Spells (Stmt.ret value span).words c') :
    ∃ s, s.erase = (Stmt.ret value span).erase ∧ Gives 4 (stmt .standard) c s c' := by
  cases value with
  | none =>
    rw [Stmt.words] at hspells
    obtain ⟨kind_eq, -, visible, more⟩ := hspells.of_token
    obtain ⟨kind_eq', -, visible', more'⟩ := more.of_token
    cases more'
    refine ⟨.ret none (c.current.span.join c.advance.advance.previousSpan), rfl, ?_⟩
    refine stmt_gives (by rw [kind_eq]; rfl) (.next hc (kind_eq ▸ visible) ?_)
    refine .along (e := 7) (.currentKind ?_) (Nat.le_refl _) (.refl c.advance)
      (.expect hc.advance kind_eq' visible' (.spanFrom (.pure _)))
    rw [kind_eq']
    exact .pure none
  | some value =>
    rw [Stmt.words] at hspells
    obtain ⟨kind_eq, -, visible, more⟩ := hspells.of_token
    obtain ⟨d, hvalue, hlast⟩ := Cursor.spells_append more
    have hd := hvalue.moves.ends hc.advance
    obtain ⟨kind_eq', -, visible', more'⟩ := hlast.of_token
    cases more'
    obtain ⟨value', herase, hgives⟩ :=
      optionalValue_gives (h value rfl) hc.advance hvalue kind_eq'
    refine ⟨.ret (some value') (c.current.span.join d.advance.previousSpan), ?_, ?_⟩
    · rw [Stmt.erase, Stmt.erase, Option.map_some, Option.map_some, herase]
    · refine stmt_gives (by rw [kind_eq]; rfl) (.next hc (kind_eq ▸ visible) ?_)
      refine hgives.along (by omega) hvalue.moves ?_
      exact .expect hd kind_eq' visible' (.spanFrom (.pure _))

/-! ## Blocks -/

/-- Where the words of a statement stand, parsing comes to the statement itself, up to places.  An
`else` must not follow, for it would belong to the statement. -/
def Stmt.ReadsBack (s : Stmt) : Prop :=
  ∀ ⦃c c' : Cursor⦄, c.Ends → c.Spells s.words c' → c'.current.kind ≠ .elseWord →
    ∃ s', s'.erase = s.erase ∧ Gives 4 (stmt .standard) c s' c'

/-- The first word of a statement begins one. -/
theorem stmt_kind {s : Stmt} (h : s.WellFormed) {ws : List Word}
    (hspells : c.Spells (s.words ++ ws) c') : Grammar.standard.stmt c.current.kind ≠ none := by
  cases h with
  | @call callee arguments callSpan span _ headed =>
    rw [Stmt.words, Expr.words, headed_bare headed, List.append_assoc, List.append_assoc] at hspells
    rw [(headed_kinds headed hspells).1]
    decide
  | @ret value =>
    cases value with
    | none => rw [show c.current.kind = .returnWord from hspells.kind_eq]; decide
    | some value =>
      rw [Stmt.words] at hspells
      rw [show c.current.kind = .returnWord from hspells.kind_eq]; decide
  | define => rw [show c.current.kind = .identifier from hspells.kind_eq]; decide
  | assign =>
    rw [Stmt.words] at hspells
    rw [show c.current.kind = .identifier from hspells.kind_eq]; decide
  | ifThenElse =>
    rw [Stmt.words] at hspells
    rw [show c.current.kind = .ifWord from hspells.kind_eq]; decide
  | whileDo =>
    rw [Stmt.words] at hspells
    rw [show c.current.kind = .whileWord from hspells.kind_eq]; decide

theorem stmt_words_pos (s : Stmt) : 0 < s.words.length := by
  cases s with
  | ret value => cases value <;> simp [Stmt.words]
  | define decl => simp [Stmt.words, VarDecl.words]
  | _ => simp [Stmt.words]

theorem untilClose_of_close {item : Parse Stmt} {rounds : Nat}
    (h : c.current.kind = .closeCurly) : untilClose item (rounds + 1) c = .ok [] c := by
  obtain ⟨before, ⟨kind, value, span⟩, ahead⟩ := c
  subst h
  rfl

theorem untilClose_of_stmt {item : Parse Stmt} {rounds : Nat}
    (h : Grammar.standard.stmt c.current.kind ≠ none) :
    untilClose item (rounds + 1) c = (do
      let first ← item
      let rest ← untilClose item rounds
      return first :: rest) c := by
  obtain ⟨before, ⟨kind, value, span⟩, ahead⟩ := c
  cases kind with
  | closeCurly => exact absurd rfl h
  | endOfInput => exact absurd rfl h
  | _ => rfl

/-- Statements one after the other up to a closing brace, where rounds and fuel are counted
apart. -/
theorem untilClose_gives {body : List Stmt} (h : ∀ s ∈ body, s.WellFormed)
    (hread : ∀ s ∈ body, s.ReadsBack) (hc : c.Ends) (hspells : c.Spells (bodyWords body) c')
    (hclose : c'.current.kind = .closeCurly) :
    c.current.kind ≠ .elseWord ∧ ∃ body', eraseBody body' = eraseBody body ∧
      ∀ fuel rounds, 4 * c.ahead.length + 4 ≤ fuel → c.ahead.length < rounds →
        untilClose (stmt .standard fuel) rounds c = .ok body' c' := by
  induction body generalizing c with
  | nil =>
    cases hspells
    refine ⟨by rw [hclose]; decide, [], rfl, fun fuel rounds _ hrounds => ?_⟩
    obtain ⟨rounds, rfl⟩ : ∃ r, rounds = r + 1 := ⟨rounds - 1, by omega⟩
    exact untilClose_of_close hclose
  | cons s body ih =>
    rw [bodyWords] at hspells
    have hkind := stmt_kind (h s List.mem_cons_self) hspells
    obtain ⟨d, hfirst, hrest⟩ := Cursor.spells_append hspells
    obtain ⟨hother, body', heraseBody, hgivesBody⟩ :=
      ih (fun t ht => h t (List.mem_cons_of_mem _ ht))
        (fun t ht => hread t (List.mem_cons_of_mem _ ht)) (hfirst.moves.ends hc) hrest
    obtain ⟨s', herase, hgives⟩ := hread s List.mem_cons_self hc hfirst hother
    refine ⟨fun heq => hkind (by rw [heq]; rfl), s' :: body',
      by rw [eraseBody, eraseBody, herase, heraseBody], fun fuel rounds hfuel hrounds => ?_⟩
    obtain ⟨rounds, rfl⟩ : ∃ r, rounds = r + 1 := ⟨rounds - 1, by omega⟩
    have hlength := hfirst.ahead_le hc
    have hpos := stmt_words_pos s
    rw [untilClose_of_stmt hkind, bind_of_ok (hgives fuel hfuel),
      bind_of_ok (hgivesBody fuel rounds (by omega) (by omega))]
    rfl

/-- **Blocks are read back** if their statements are. -/
theorem block_gives {body : List Stmt} (h : ∀ s ∈ body, s.WellFormed)
    (hread : ∀ s ∈ body, s.ReadsBack) (hc : c.Ends)
    (hspells : c.Spells (.openCurly :: (bodyWords body ++ [.closeCurly])) c') :
    ∃ body' span, eraseBody body' = eraseBody body ∧
      Gives 1 (block .standard) c (.unresolved body' span) c' := by
  obtain ⟨kind_eq, -, visible, more⟩ := hspells.of_token
  obtain ⟨d, hbody, hlast⟩ := Cursor.spells_append more
  have hd := hbody.moves.ends hc.advance
  obtain ⟨kind_eq', -, visible', more'⟩ := hlast.of_token
  cases more'
  obtain ⟨-, body', herase, hgives⟩ := untilClose_gives h hread hc.advance hbody kind_eq'
  refine ⟨body', c.current.span.join d.advance.previousSpan, herase, .succ ?_⟩
  simp only [block]
  refine .expectFor hc kind_eq visible ?_
  refine .along (e := 4) (fun fuel hfuel => hgives fuel fuel hfuel (by omega)) (Nat.le_refl _)
    hbody.moves ?_
  exact .expect hd kind_eq' visible' (.spanFrom (.pure _))

/-! ## Statements with blocks -/

/-- The condition before a block. -/
theorem condition_gives {condition : Expr} (h : condition.WellFormed) (hc : c.Ends)
    {ws : List Word} (hspells : c.Spells (condition.words ++ .openCurly :: ws) c') :
    ∃ d condition', condition'.erase = condition.erase ∧
      Gives 3 (expr .standard · .lowest) c condition' d ∧ c.Moves d ∧
      d.Spells (.openCurly :: ws) c' := by
  obtain ⟨d, hcondition, hmore⟩ := Cursor.spells_append hspells
  have hnext : d.current.kind = .openCurly := hmore.kind_eq
  obtain ⟨condition', herase, hgives⟩ := (readsBack h).gives hc hcondition
    (by rw [hnext]; decide) (by rw [hnext]; rfl)
  exact ⟨d, condition', herase, hgives, hcondition.moves, hmore⟩

theorem readsBack_while {condition : Expr} {body : List Stmt} {bodySpan span : Span}
    (hcondition : condition.WellFormed) (h : ∀ s ∈ body, s.WellFormed)
    (hread : ∀ s ∈ body, s.ReadsBack) :
    (Stmt.whileDo condition ⟨body, 0, bodySpan⟩ span).ReadsBack := by
  intro c c' hc hspells _
  rw [Stmt.words, Block.words] at hspells
  obtain ⟨kind_eq, -, visible, more⟩ := hspells.of_token
  obtain ⟨d, condition', herase, hgives, hmoves, hblock⟩ :=
    condition_gives hcondition hc.advance more
  obtain ⟨body', bodySpan', heraseBody, hgivesBody⟩ :=
    block_gives h hread (hmoves.ends hc.advance) hblock
  refine ⟨.whileDo condition' (.unresolved body' bodySpan')
    (c.current.span.join c'.previousSpan), ?_, ?_⟩
  · rw [Stmt.erase, Stmt.erase, herase, Block.unresolved, Block.erase, Block.erase, heraseBody]
  · refine stmt_gives (by rw [kind_eq]; rfl) (.succ ?_)
    simp only [ruleStmt, whileStmt]
    refine .next hc (kind_eq ▸ visible) ?_
    refine hgives.along (by omega) hmoves ?_
    exact hgivesBody.along (by omega) hblock.moves (.spanFrom (.pure _))

theorem choice_kind {s : Stmt} (h : s.isChoice = true) (hspells : c.Spells s.words c') :
    c.current.kind = .ifWord := by
  cases s with
  | ifThenElse =>
    rw [Stmt.words] at hspells
    exact hspells.kind_eq
  | _ => cases h

/-- The second block of a choice. -/
theorem else_gives {body : List Stmt} {span : Span} (h : ∀ s ∈ body, s.WellFormed)
    (hread : ∀ s ∈ body, s.ReadsBack) (hc : c.Ends)
    (hspells : c.Spells (Block.elseWords ⟨body, 0, span⟩) c')
    (hnext : c'.current.kind ≠ .elseWord) :
    ∃ body' span', eraseBody body' = eraseBody body ∧
      Gives 1 (elseBlock .standard) c (.unresolved body' span') c' := by
  cases body with
  | nil =>
    rw [Block.elseWords] at hspells
    cases hspells
    refine ⟨[], c.previousSpan, rfl, .succ ?_⟩
    simp only [elseBlock]
    exact .stay hnext (.get (.pure _))
  | cons first rest =>
    rw [Block.elseWords] at hspells
    split at hspells
    · next hchoice =>
      -- a lone choice is written right behind the `else`, and is no block of its own
      simp only [Bool.and_eq_true, List.isEmpty_iff] at hchoice
      obtain ⟨hchoice, rfl⟩ := hchoice
      obtain ⟨kind_eq, -, visible, more⟩ := hspells.of_token
      obtain ⟨s', herase, hgives⟩ := hread first List.mem_cons_self hc.advance more hnext
      have hif : c.advance.current.kind = .ifWord := choice_kind hchoice more
      have hrule : Grammar.standard.stmt c.advance.current.kind = some .ifThenElse := by
        rw [hif]
        rfl
      have hnested : Gives 3 (ifStmt .standard) c.advance s' c' := fun fuel hfuel =>
        (stmt_eq_ruleStmt hrule).symm.trans (hgives (fuel + 1) (by omega))
      refine ⟨[s'], s'.span, by simp only [eraseBody, herase], .succ ?_⟩
      simp only [elseBlock]
      refine .skip hc kind_eq visible (.currentKind ?_)
      rw [hif]
      exact hnested.along (by omega) more.moves (.pure _)
    · obtain ⟨kind_eq, -, visible, more⟩ := hspells.of_token
      have hblock : c.advance.Spells
          (.openCurly :: (bodyWords (first :: rest) ++ [.closeCurly])) c' := by
        rw [bodyWords, List.append_assoc]
        exact more
      obtain ⟨body', span', herase, hgives⟩ := block_gives h hread hc.advance hblock
      refine ⟨body', span', herase, .succ ?_⟩
      simp only [elseBlock]
      refine .skip hc kind_eq visible (.currentKind ?_)
      rw [show c.advance.current.kind = .openCurly from hblock.kind_eq]
      exact hgives.mono (by omega)

theorem readsBack_if {condition : Expr} {thenBody elseBody : List Stmt}
    {thenSpan elseSpan span : Span} (hcondition : condition.WellFormed)
    (hthen : ∀ s ∈ thenBody, s.WellFormed) (helse : ∀ s ∈ elseBody, s.WellFormed)
    (hreadThen : ∀ s ∈ thenBody, s.ReadsBack) (hreadElse : ∀ s ∈ elseBody, s.ReadsBack) :
    (Stmt.ifThenElse condition ⟨thenBody, 0, thenSpan⟩ ⟨elseBody, 0, elseSpan⟩ span).ReadsBack := by
  intro c c' hc hspells hnext
  rw [Stmt.words, Block.words] at hspells
  obtain ⟨kind_eq, -, visible, more⟩ := hspells.of_token
  obtain ⟨d, condition', herase, hgives, hmoves, hblocks⟩ :=
    condition_gives hcondition hc.advance more
  have hd := hmoves.ends hc.advance
  obtain ⟨d', hblock, hlast⟩ := Cursor.spells_append
    (show d.Spells (.openCurly :: (bodyWords thenBody ++ [.closeCurly]) ++ _) c' from hblocks)
  obtain ⟨thenBody', thenSpan', heraseThen, hgivesThen⟩ := block_gives hthen hreadThen hd hblock
  obtain ⟨elseBody', elseSpan', heraseElse, hgivesElse⟩ :=
    else_gives helse hreadElse (hblock.moves.ends hd) hlast hnext
  refine ⟨.ifThenElse condition' (.unresolved thenBody' thenSpan')
    (.unresolved elseBody' elseSpan') (c.current.span.join c'.previousSpan), ?_, ?_⟩
  · simp only [Stmt.erase, Block.unresolved, Block.erase, herase, heraseThen, heraseElse]
  · refine stmt_gives (by rw [kind_eq]; rfl) (.succ ?_)
    simp only [ruleStmt, ifStmt]
    refine .next hc (kind_eq ▸ visible) ?_
    refine hgives.along (by omega) hmoves ?_
    refine hgivesThen.along (by omega) hblock.moves ?_
    exact hgivesElse.along (by omega) hlast.moves (.spanFrom (.pure _))

/-- **Every statement that can be written is read back.** -/
theorem stmt_readsBack {s : Stmt} (h : s.WellFormed) : s.ReadsBack := by
  induction h with
  | call called headed => exact fun _ _ hc hspells _ => call_gives called headed hc hspells
  | define defined => exact fun _ _ hc hspells _ => define_gives defined hc hspells
  | assign _ assigned => exact fun _ _ hc hspells _ => assign_gives assigned hc hspells
  | ret returned => exact fun _ _ hc hspells _ => return_gives returned hc hspells
  | ifThenElse tested taken otherwise ihThen ihElse =>
    exact readsBack_if tested taken otherwise ihThen ihElse
  | whileDo tested repeated ih => exact readsBack_while tested repeated ih

end TypedImp
