import TypedImp.Proofs.Printing.Legible
import TypedImp.Proofs.Printing.Statements

/-!
# Reading programs back

A program is read definition by definition.  Definitions of variables come first in its words, then
functions; a function begins with a name, a colon and a parenthesis.

* `function_gives`: functions.
* `definitions_gives`: all definitions up to the end of the input.
* `tokenize_text`, `parse_text`: from the text of a program back to the program.
-/

namespace TypedImp

open Parse

variable {c c' : Cursor}

/-! ## Functions -/

theorem parameter_item {parameter : Parameter}
    (hwritten : parameter.type.ty.isWritten false = true) :
    Gives.Item 1 (Parse.parameter .standard) Parameter.words Parameter.erase parameter := by
  intro c c' hc hspells _
  rw [Parameter.words] at hspells
  obtain ⟨kind_eq, value_eq, visible, more⟩ := hspells.of_token
  obtain ⟨kind_eq', -, visible', more'⟩ := more.of_token
  refine ⟨by rw [kind_eq]; decide, ⟨c.current.value, parameter.type,
    c.current.span.join c'.previousSpan⟩, ?_, ?_⟩
  · simp only [Parameter.erase, String.toList_inj.mp value_eq]
  · refine .expectFor hc kind_eq visible (.expect hc.advance kind_eq' visible' ?_)
    refine .skipMutable hc.advance.advance more' fun d hd hspells => ?_
    exact (explicitType_gives hwritten hd hspells _).along (by omega) hspells.moves
      (.spanFrom (.pure _))

/-- **Functions are read back.**  A semicolon must not follow, for it would belong to the
function. -/
theorem function_gives {f : FunDecl} (h : f.WellFormed) (hc : c.Ends)
    (hspells : c.Spells f.words c') (hnext : c'.current.kind ≠ .semicolon) :
    ∃ f', f'.erase = f.erase ∧ Gives 0 (Parse.function .standard) c f' c' := by
  obtain ⟨name, parameters, result, ⟨body, scope, bodySpan⟩, span⟩ := f
  obtain rfl : scope = 0 := h.scope
  simp only [FunDecl.words, Block.words] at hspells
  obtain ⟨kind_eq, value_eq, visible, more⟩ := hspells.of_token
  obtain ⟨kind_eq₁, -, visible₁, more⟩ := more.of_token
  obtain ⟨kind_eq₂, -, visible₂, more⟩ := more.of_token
  have hc₂ := hc.advance.advance.advance
  obtain ⟨d, hparameters, more⟩ := Cursor.spells_append more
  have hd := hparameters.moves.ends hc₂
  obtain ⟨kind_eq₃, -, visible₃, more⟩ := more.of_token
  obtain ⟨kind_eq₄, -, visible₄, more⟩ := more.of_token
  obtain ⟨d', hresult, more⟩ := Cursor.spells_append more
  have hd' := hresult.moves.ends hd.advance.advance
  obtain ⟨kind_eq₅, -, visible₅, more⟩ := more.of_token
  obtain ⟨parameters', hsame, hgivesParameters⟩ := Gives.untilParen
    (fun p hp => parameter_item (h.parameters p hp).2) (Nat.le_refl 1) hc₂ hparameters kind_eq₃
  obtain ⟨body', bodySpan', herase, hgivesBody⟩ :=
    block_gives h.body (fun s hs => stmt_readsBack (h.body s hs)) hd'.advance more
  refine ⟨⟨c.current.value, parameters', result, .unresolved body' bodySpan',
    c.current.span.join c'.previousSpan⟩, ?_, ?_⟩
  · simp only [FunDecl.erase, Block.unresolved, Block.erase, hsame, herase,
      String.toList_inj.mp value_eq]
  · refine .expect hc kind_eq visible (.expect hc.advance kind_eq₁ visible₁
      (.expect hc.advance.advance kind_eq₂ visible₂ ?_))
    refine hgivesParameters.along (by omega) hparameters.moves ?_
    refine .expectFor hd kind_eq₃ visible₃ (.expectFor hd.advance kind_eq₄ visible₄ ?_)
    refine (explicitType_gives h.result hd.advance.advance hresult _).along (by omega)
      hresult.moves ?_
    refine .expectFor hd' kind_eq₅ visible₅ ?_
    refine hgivesBody.along (by omega) more.moves ?_
    exact .stay hnext (.spanFrom (.pure _))

/-! ## Definitions -/

theorem definition_of_variable {decl : VarDecl} (h : decl.WellFormed) (hc : c.Ends)
    (hspells : c.Spells decl.words c') (program : Program) :
    ∃ decl', decl'.erase = decl.erase ∧ Gives 0 (definition .standard · program) c
      { program with globals := program.globals ++ [decl'] } c' := by
  obtain ⟨decl', herase, hgives⟩ := varDecl_gives h hc hspells
  have hadded : Gives 0 (fun fuel => varDecl .standard fuel >>= fun decl =>
      return { program with globals := program.globals ++ [decl] }) c
      { program with globals := program.globals ++ [decl'] } c' :=
    hgives.along (Nat.le_refl _) hspells.moves (.pure _)
  obtain ⟨hkind, hnext⟩ := varDecl_kinds hc hspells
  refine ⟨decl', herase, .currentKind ?_⟩
  rw [hkind]
  refine .peekKind (.peekKind ?_)
  rcases hnext with hnext | ⟨hnext, hother⟩
  · rw [hnext]
    exact hadded
  · rw [hnext]
    split
    · next heq => exact absurd heq hother
    · exact hadded
    · exact hadded
    · next hcolon _ _ => exact (hcolon rfl).elim

theorem definition_of_function {f : FunDecl} (h : f.WellFormed) (hc : c.Ends)
    (hspells : c.Spells f.words c') (hnext : c'.current.kind ≠ .semicolon) (program : Program) :
    ∃ f', f'.erase = f.erase ∧ Gives 0 (definition .standard · program) c
      { program with functions := program.functions ++ [f'] } c' := by
  obtain ⟨f', herase, hgives⟩ := function_gives h hc hspells hnext
  have hmoves := hspells.moves
  obtain ⟨kind_eq, -, visible, more⟩ := hspells.of_token
  obtain ⟨kind_eq', -, visible', more⟩ := more.of_token
  refine ⟨f', herase, .currentKind ?_⟩
  rw [kind_eq]
  refine .peekKind (.peekKind ?_)
  rw [Cursor.peek_one hc (kind_eq ▸ visible),
    Cursor.peek_two hc (kind_eq ▸ visible) (kind_eq' ▸ visible'), kind_eq',
    show c.advance.advance.current.kind = .openParen from more.kind_eq]
  exact hgives.along (Nat.le_refl _) hmoves (.pure _)

/-- One definition, and the others behind it. -/
theorem definitions_step {program program' result : Program} {d : Cursor}
    (hkind : c.current.kind ≠ .endOfInput)
    (hfirst : Gives 0 (definition .standard · program) c program' d)
    (hshorter : d.ahead.length < c.ahead.length)
    (hrest : Gives 1 (definitions .standard · program') d result c') :
    Gives 1 (definitions .standard · program) c result c' := by
  refine .succ ?_
  simp only [definitions]
  refine .get ?_
  simp only [Cursor.hasTokens, hkind, ne_eq, not_false_eq_true, decide_true, if_true]
  exact hfirst.bind (by omega) hrest

theorem definitions_done {program : Program} (h : c.current.kind = .endOfInput) :
    Gives 1 (definitions .standard · program) c program c := by
  refine .succ ?_
  simp only [definitions]
  refine .get ?_
  simp only [Cursor.hasTokens, h, ne_eq, not_true_eq_false, decide_false, Bool.false_eq_true,
    if_false]
  exact .pure program

theorem definitions_of_functions {functions : List FunDecl} (h : ∀ f ∈ functions, f.WellFormed)
    (hc : c.Ends) (hspells : c.Spells (functions.flatMap FunDecl.words) c')
    (hend : c'.current.kind = .endOfInput) (program : Program) :
    c.current.kind ≠ .semicolon ∧ ∃ functions',
      functions'.map FunDecl.erase = functions.map FunDecl.erase ∧
      Gives 1 (definitions .standard · program) c
        { program with functions := program.functions ++ functions' } c' := by
  induction functions generalizing c program with
  | nil =>
    cases hspells
    refine ⟨by rw [hend]; decide, [], rfl, ?_⟩
    rw [List.append_nil]
    exact definitions_done hend
  | cons f functions ih =>
    rw [List.flatMap_cons] at hspells
    have hkind : c.current.kind = .identifier := hspells.kind_eq
    obtain ⟨d, hfirst, hrest⟩ := Cursor.spells_append hspells
    have hd := hfirst.moves.ends hc
    have hshorter := hfirst.ahead_le hc
    have hothers : ∀ g ∈ functions, g.WellFormed := fun g hg => h g (List.mem_cons_of_mem _ hg)
    have hnext := (ih hothers hd hrest program).1
    obtain ⟨f', herase, hgives⟩ :=
      definition_of_function (h f List.mem_cons_self) hc hfirst hnext program
    obtain ⟨-, functions', heraseRest, hgivesRest⟩ := ih hothers hd hrest
      { program with functions := program.functions ++ [f'] }
    refine ⟨by rw [hkind]; decide, f' :: functions', congrArg₂ List.cons herase heraseRest, ?_⟩
    rw [List.append_assoc] at hgivesRest
    exact definitions_step (by rw [hkind]; decide) hgives
      (by simp only [FunDecl.words, List.length_cons] at hshorter; omega) hgivesRest

/-- **Definitions up to the end of the input are read back.** -/
theorem definitions_gives {globals : List VarDecl} {functions : List FunDecl}
    (hglobals : ∀ decl ∈ globals, decl.WellFormed) (hfunctions : ∀ f ∈ functions, f.WellFormed)
    (hc : c.Ends)
    (hspells : c.Spells (globals.flatMap VarDecl.words ++ functions.flatMap FunDecl.words) c')
    (hend : c'.current.kind = .endOfInput) (program : Program) :
    ∃ globals' functions', globals'.map VarDecl.erase = globals.map VarDecl.erase ∧
      functions'.map FunDecl.erase = functions.map FunDecl.erase ∧
      Gives 1 (definitions .standard · program) c
        ⟨program.globals ++ globals', program.functions ++ functions'⟩ c' := by
  induction globals generalizing c program with
  | nil =>
    obtain ⟨-, functions', herase, hgives⟩ :=
      definitions_of_functions hfunctions hc hspells hend program
    refine ⟨[], functions', rfl, herase, ?_⟩
    rw [List.append_nil]
    exact hgives
  | cons decl globals ih =>
    rw [List.flatMap_cons, List.append_assoc] at hspells
    have hkind : c.current.kind = .identifier := hspells.kind_eq
    obtain ⟨d, hfirst, hrest⟩ := Cursor.spells_append hspells
    have hshorter := hfirst.ahead_le hc
    obtain ⟨decl', herase, hgives⟩ :=
      definition_of_variable (hglobals decl List.mem_cons_self) hc hfirst program
    obtain ⟨globals', functions', heraseRest, heraseFunctions, hgivesRest⟩ :=
      ih (fun decl hdecl => hglobals decl (List.mem_cons_of_mem _ hdecl)) (hfirst.moves.ends hc)
        hrest { program with globals := program.globals ++ [decl'] }
    refine ⟨decl' :: globals', functions', congrArg₂ List.cons herase heraseRest,
      heraseFunctions, ?_⟩
    rw [List.append_assoc] at hgivesRest
    exact definitions_step (by rw [hkind]; decide) hgives
      (by simp only [VarDecl.words, List.length_cons] at hshorter; omega) hgivesRest

/-! ## Texts -/

/-- The text of a program is cut into the tokens of its words. -/
theorem tokenize_text {p : Program} (h : p.WellFormed) :
    tokenize p.text = .ok (wordTokens [] p.words ++
      [.endAt (Position.start.advance (spellWords p.words))]) := by
  have htext : p.text.toList = spellWords p.words := String.toList_ofList
  have hscan : scan .start p.text.toList = (wordTokens [] p.words).map .token := by
    rw [htext]
    exact scan_spellWords h.legible []
  rw [tokenize_of_scan hscan, htext]

/-- A cursor before tokens of which the last is an end of input. -/
theorem Cursor.ofTokens_append_end {tokens : List Token} {p : Position} :
    (Cursor.ofTokens (tokens ++ [.endAt p])).Ends ∧
      (Cursor.ofTokens (tokens ++ [.endAt p])).current ::
        (Cursor.ofTokens (tokens ++ [.endAt p])).ahead = tokens ++ [.endAt p] := by
  cases tokens with
  | nil => exact ⟨rfl, rfl⟩
  | cons token tokens =>
    have hlast : (tokens ++ [Token.endAt p]).getLastD token = .endAt p := by simp
    have hcursor : Cursor.ofTokens (token :: tokens ++ [.endAt p]) =
        ⟨[], token, tokens ++ [.endAt p]⟩ := by
      rw [List.cons_append, Cursor.ofTokens]
      simp only [hlast]
      rfl
    rw [hcursor]
    exact ⟨by rw [Cursor.Ends, hlast]; rfl, rfl⟩

/-- **A program that is written down is read back.** -/
theorem parse_text {p : Program} (h : p.WellFormed) :
    ∃ tokens p', tokenize p.text = .ok tokens ∧ parse tokens = .ok p' ∧ p'.erase = p.erase := by
  obtain ⟨hc, htokens⟩ := @Cursor.ofTokens_append_end (wordTokens [] p.words)
    (Position.start.advance (spellWords p.words))
  obtain ⟨c', hspells, hlast⟩ := Cursor.spells_of_tokens h.legible htokens
  obtain ⟨globals', functions', hglobals, hfunctions, hgives⟩ := definitions_gives h.globals
    h.functions hc hspells (by rw [hlast]; rfl) .empty
  refine ⟨_, ⟨globals', functions'⟩, tokenize_text h, ?_, ?_⟩
  · rw [parse]
    simp only [hgives _ (le_fuel _ (by omega))]
    rfl
  · rw [Program.erase, Program.erase, hglobals, hfunctions]

end TypedImp
