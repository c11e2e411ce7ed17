import TypedImp.Proofs.Grammar.Fuel

/-!
# Programs have fuel enough

Statements and definitions are built from expressions with few calls in between, and every statement
and every definition passes a token.  So the fuel that is given to a program is enough for it,
whatever its tokens are: parsing always answers, with a program or with an error.

* `Ready`, `Steady.andThen`: what comes behind a token has fuel enough.
* `Parse.steady_type`, `Parse.steady_varDecl`, `Parse.steady_stmt`, `Parse.steady_function`: fuel
  enough, one function of the grammar after the other.
* `parse_ne_exhausted`: **parsing never runs out of fuel**.
-/

namespace TypedImp

/-! ## More ways to look at tokens -/

namespace Settles

variable {ι α : Type} {enough : ι → Prop} {n : Nat} {c : Cursor}

theorem peekKind {k : Nat} {f : ι → TokenKind → Parse α}
    (h : Settles enough n (f · (c.peek k).kind) c) :
    Settles enough n (fun i => Parse.peekKind k >>= f i) c :=
  h.congr fun _ _ => rfl

theorem spanFrom {span : Span} {f : ι → Span → Parse α}
    (h : Settles enough n (f · (span.join c.previousSpan)) c) :
    Settles enough n (fun i => Parse.spanFrom span >>= f i) c :=
  h.congr fun _ _ => rfl

theorem expect (hc : c.Ends) {kind : TokenKind} (hkind : kind ≠ .endOfInput) :
    Settles enough 1 (fun _ => Parse.expect kind) c := by
  refine get (c := c) (f := fun _ c => if c.current.kind = kind then Parse.next else
    Parse.raise c.unexpected) ?_
  split
  · next h => exact next hc (h ▸ hkind)
  · exact raise _

theorem skip (hc : c.Ends) (kind : TokenKind) : Settles enough 0 (fun _ => Parse.skip kind) c := by
  unfold Parse.skip
  refine currentKind ?_
  split
  · exact pass.bind (m := 0) hc fun _ _ _ _ => pure true
  · exact pure false

/-- Statements up to a closing brace.  Each round passes a token. -/
theorem untilClose {item : ι → Parse Stmt} : ∀ {c : Cursor}, c.Ends →
    (∀ c', c'.Ends → c'.ahead.length ≤ c.ahead.length → Settles enough 1 item c') →
    Settles (fun p : ι × Nat => enough p.1 ∧ c.ahead.length < p.2) 0
      (fun p => Parse.untilClose (item p.1) p.2) c
  | c, hc, hitem => by
    have hstep : ∀ p : ι × Nat, enough p.1 ∧ c.ahead.length < p.2 →
        Parse.untilClose (item p.1) p.2 c = Parse.untilClose (item p.1) (p.2 - 1 + 1) c := by
      rintro ⟨i, m⟩ ⟨-, hm⟩
      rw [Nat.sub_add_cancel (Nat.one_le_of_lt hm)]
    refine Settles.congr ?_ hstep
    simp only [Parse.untilClose]
    refine .currentKind ?_
    split
    · exact pure []
    · exact fail _
    · have hfirst : Settles (fun p : ι × Nat => enough p.1 ∧ c.ahead.length < p.2) 1
          (fun p => item p.1) c :=
        (hitem c hc (Nat.le_refl _)).mono Prod.fst (fun p hp => hp.1) (Nat.le_refl _)
      refine (hfirst.bind (m := 0) hc fun first c' hc' hlength => ?_).weaken (Nat.zero_le _)
      have hrest := untilClose hc' fun d hd hle => hitem d hd (by omega)
      have hrest' : Settles (fun p : ι × Nat => enough p.1 ∧ c.ahead.length < p.2) 0
          (fun p => Parse.untilClose (item p.1) (p.2 - 1)) c' :=
        hrest.mono (fun p : ι × Nat => (p.1, p.2 - 1))
          (fun p hp => ⟨hp.1, by have := hp.2; omega⟩) (Nat.le_refl _)
      exact hrest'.bind (m := 0) hc' fun rest d _ _ => pure _
termination_by c => c.ahead.length

end Settles

/-! ## One step after the other

A step that passes a token leaves at least four units of fuel more than the tokens left need, and
nothing in the grammar needs more than that.  So there is no more counting behind the first
token. -/

/-- A computation that comes behind a token: the fuel is enough for it. -/
abbrev Ready {α : Type} (x : Nat → Parse α) (c : Cursor) : Prop := Steady 4 0 x c

namespace Steady

variable {α β : Type} {c : Cursor} {d n : Nat} {f : Nat → Token → Parse β}

theorem ready {x : Nat → Parse α} (h : Steady d n x c) (hd : d ≤ 4) : Ready x c :=
  h.mono hd (Nat.zero_le n)

theorem andThen {x : Nat → Parse α} {f : Nat → α → Parse β} (hc : c.Ends)
    (hx : Steady d (n + 1) x c)
    (hf : ∀ a c', c'.Ends → c'.ahead.length < c.ahead.length → Ready (f · a) c') :
    Steady d (n + 1) (fun fuel => x fuel >>= f fuel) c :=
  Steady.bind (m := 0) (e := 4) hc hx (by omega) fun a c' hc' hlength =>
    hf a c' hc' (by omega)

theorem next (hc : c.Ends) (hcurrent : c.current.kind ≠ .endOfInput)
    (hf : ∀ t c', c'.Ends → c'.ahead.length < c.ahead.length → Ready (f · t) c') :
    Steady d 1 (fun fuel => Parse.next >>= f fuel) c :=
  andThen hc (Settles.next hc hcurrent) hf

theorem expect {kind : TokenKind} (hc : c.Ends) (hkind : kind ≠ .endOfInput)
    (hf : ∀ t c', c'.Ends → c'.ahead.length < c.ahead.length → Ready (f · t) c') :
    Steady d 1 (fun fuel => Parse.expect kind >>= f fuel) c :=
  andThen hc (Settles.expect hc hkind) hf

theorem expectFor {kind : TokenKind} {message : String} (hc : c.Ends) (hkind : kind ≠ .endOfInput)
    (hf : ∀ t c', c'.Ends → c'.ahead.length < c.ahead.length → Ready (f · t) c') :
    Steady d 1 (fun fuel => Parse.expectFor kind message >>= f fuel) c :=
  andThen hc (Settles.expectFor hc hkind message) hf

theorem skip {kind : TokenKind} {f : Nat → Bool → Parse β} (hc : c.Ends)
    (hf : ∀ found c', c'.Ends → c'.ahead.length ≤ c.ahead.length → Steady d 0 (f · found) c') :
    Steady d 0 (fun fuel => Parse.skip kind >>= f fuel) c :=
  Steady.bind (n := 0) (m := 0) (e := d) hc (Settles.skip hc kind) (Nat.le_refl _) hf

end Steady

namespace Ready

variable {α β : Type} {c : Cursor} {d n : Nat} {f : Nat → Token → Parse β}

theorem andThen {x : Nat → Parse α} {f : Nat → α → Parse β} (hc : c.Ends) (hx : Steady 4 n x c)
    (hf : ∀ a c', c'.Ends → c'.ahead.length ≤ c.ahead.length → Ready (f · a) c') :
    Ready (fun fuel => x fuel >>= f fuel) c :=
  (Steady.bind (m := 0) (e := 4) hc hx (by omega) fun a c' hc' hlength =>
    hf a c' hc' (by omega)).weaken (Nat.zero_le _)

theorem expect {kind : TokenKind} (hc : c.Ends) (hkind : kind ≠ .endOfInput)
    (hf : ∀ t c', c'.Ends → c'.ahead.length < c.ahead.length → Ready (f · t) c') :
    Ready (fun fuel => Parse.expect kind >>= f fuel) c :=
  (Steady.expect hc hkind hf).weaken (Nat.zero_le 1)

theorem expectFor {kind : TokenKind} {message : String} (hc : c.Ends) (hkind : kind ≠ .endOfInput)
    (hf : ∀ t c', c'.Ends → c'.ahead.length < c.ahead.length → Ready (f · t) c') :
    Ready (fun fuel => Parse.expectFor kind message >>= f fuel) c :=
  (Steady.expectFor hc hkind hf).weaken (Nat.zero_le 1)

/-- The token that closes a construct, and the span of the construct. -/
theorem close {kind : TokenKind} {span : Span} {g : Span → Parse β} (hc : c.Ends)
    (hkind : kind ≠ .endOfInput) (hg : ∀ span, ∃ b, g span = Pure.pure b) :
    Ready (fun _ => Parse.expect kind >>= fun _ => Parse.spanFrom span >>= g) c := by
  refine expect hc hkind fun _ c' _ _ => .spanFrom ?_
  obtain ⟨b, hb⟩ := hg (span.join c'.previousSpan)
  rw [hb]
  exact .pure b

end Ready

namespace Parse

variable {c : Cursor} {d : Nat}

/-! ## Types and variables -/

theorem ready_expr (hc : c.Ends) : Steady 4 1 (expr .standard · .lowest) c :=
  (steady_expr hc .lowest).mono (by omega) (Nat.le_refl 1)

theorem steady_type : ∀ {c : Cursor}, c.Ends → Steady 2 1 (type .standard) c
  | c, hc => by
    refine .succ ?_
    simp only [type]
    refine .currentKind ?_
    split
    · exact Steady.expect hc (by decide) fun _ _ _ _ => .pure _
    · refine Steady.succ ?_
      simp only [pointerType]
      refine Steady.expect hc (by decide) fun _ c' hc' _ => ?_
      exact Ready.andThen hc' ((steady_type hc').mono (by omega) (Nat.le_refl 1))
        fun _ _ _ _ => .pure _
    · exact Steady.expect hc (by decide) fun _ _ _ _ => .pure _
    · exact .fail _
termination_by c => c.ahead.length

theorem steady_explicitType (hc : c.Ends) (message : String) :
    Steady 4 1 (explicitType .standard · message) c := by
  unfold explicitType
  refine .currentKind ?_
  split
  · exact .fail _
  · refine Steady.andThen hc ((steady_type hc).mono (by omega) (Nat.le_refl 1)) fun t _ _ _ => ?_
    split
    · exact .fail _
    · exact .pure _

theorem ready_typeAndValue (hc : c.Ends) : Ready (typeAndValue .standard) c := by
  unfold typeAndValue bindingType valueAfter
  refine .skip hc fun found c' hc' _ => ?_
  split
  · exact Ready.andThen hc' (ready_expr hc') fun _ _ _ _ => .pure _
  · refine Ready.expect hc' (by decide) fun _ c₁ h₁ _ => ?_
    refine Ready.andThen (n := 0) h₁ ?_ fun type c₂ h₂ _ => ?_
    · exact .skip h₁ fun _ c₂ h₂ _ => Ready.andThen h₂ ((steady_type h₂).ready (by omega))
        fun _ _ _ _ => .pure _
    · refine Ready.andThen (n := 0) h₂ ?_ fun _ _ _ _ => .pure _
      refine .skip h₂ fun found c₃ h₃ _ => ?_
      split
      · exact Ready.andThen h₃ (ready_expr h₃) fun _ _ _ _ => .pure _
      · exact .pure _

theorem steady_varDecl (hc : c.Ends) : Steady d 1 (varDecl .standard) c := by
  unfold varDecl
  refine Steady.expect hc (by decide) fun name c₁ h₁ _ => ?_
  refine Ready.andThen h₁ (ready_typeAndValue h₁) fun b c₂ h₂ _ => ?_
  exact .close h₂ (by decide) fun span => ⟨_, rfl⟩

/-! ## Statements without blocks -/

theorem steady_assignment (hc : c.Ends) : Steady d 1 (assignment .standard) c := by
  unfold assignment
  refine Steady.expect hc (by decide) fun name c₁ h₁ _ => ?_
  refine Ready.expect h₁ (by decide) fun _ c₂ h₂ _ => ?_
  refine Ready.andThen h₂ (ready_expr h₂) fun value c₃ h₃ _ => ?_
  exact .close h₃ (by decide) fun span => ⟨_, rfl⟩

theorem steady_callStmt (hc : c.Ends) : Steady 3 1 (callStmt .standard) c := by
  unfold callStmt
  refine .get (Steady.andThen hc (steady_expr hc .lowest) fun e c₁ h₁ _ => ?_)
  split
  · exact .close h₁ (by decide) fun span => ⟨_, rfl⟩
  · exact .fail _

theorem steady_identifierStmt (hc : c.Ends) : Steady 3 1 (identifierStmt .standard) c := by
  have hvariable : Steady 3 1 (fun fuel => varDecl .standard fuel >>= fun decl =>
      return Stmt.define decl) c :=
    Steady.andThen hc (steady_varDecl hc) fun _ _ _ _ => .pure _
  unfold identifierStmt
  refine .peekKind (.peekKind ?_)
  split
  · refine Settles.bind (n := 0) (m := 1) hc .pass fun _ c₁ h₁ _ => ?_
    exact Settles.bind (n := 0) (m := 1) h₁ .pass fun _ _ _ _ => .fail _
  · exact hvariable
  · exact hvariable
  · exact steady_assignment hc
  · exact steady_callStmt hc

theorem steady_returnStmt (hc : c.Ends) (hcurrent : c.current.kind ≠ .endOfInput) :
    Steady d 1 (returnStmt .standard) c := by
  unfold returnStmt optionalValue
  refine Steady.next hc hcurrent fun word c₁ h₁ _ => ?_
  refine Ready.andThen (n := 0) h₁ ?_ fun value c₂ h₂ _ => ?_
  · refine .currentKind ?_
    split
    · exact .pure _
    · exact Ready.andThen h₁ (ready_expr h₁) fun _ _ _ _ => .pure _
  · exact .close h₂ (by decide) fun span => ⟨_, rfl⟩

/-! ## Statements with blocks -/

/-- What blocks need of the tokens behind the current one: there any statement settles. -/
def StmtsSettleBehind (c : Cursor) : Prop :=
  ∀ c' : Cursor, c'.Ends → c'.ahead.length < c.ahead.length → Steady 4 1 (stmt .standard) c'

theorem StmtsSettleBehind.of_le {c c' : Cursor} (h : StmtsSettleBehind c)
    (hle : c'.ahead.length ≤ c.ahead.length) : StmtsSettleBehind c' :=
  fun c'' hc'' hlt => h c'' hc'' (Nat.lt_of_lt_of_le hlt hle)

theorem steady_block (hc : c.Ends) (hstmt : StmtsSettleBehind c) :
    Steady (d + 1) 1 (block .standard) c := by
  refine .succ ?_
  simp only [block]
  refine Steady.expectFor hc (by decide) fun start c₁ h₁ hlength => ?_
  have hbody : Settles
      (fun p : Nat × Nat => 4 * c₁.ahead.length + 4 ≤ p.1 ∧ c₁.ahead.length < p.2) 0
      (fun p => untilClose (stmt .standard p.1) p.2) c₁ :=
    Settles.untilClose h₁ fun c₂ h₂ hle =>
      (hstmt c₂ h₂ (by omega)).settles fun _ hfuel => by omega
  have hready : Ready (fun fuel => untilClose (stmt .standard fuel) fuel) c₁ :=
    hbody.mono (fun fuel => (fuel, fuel)) (fun fuel hfuel => ⟨hfuel, by omega⟩) (Nat.le_refl _)
  refine Ready.andThen h₁ hready fun body c₂ h₂ _ => ?_
  exact .close h₂ (by decide) fun span => ⟨_, rfl⟩

/-- The second block of a choice, if the choice that may stand in its place settles. -/
theorem ready_elseBlock (hc : c.Ends) (hstmt : StmtsSettleBehind c)
    (hif : ∀ c' : Cursor, c'.Ends → c'.ahead.length ≤ c.ahead.length →
      c'.current.kind ≠ .endOfInput → Steady 3 1 (ifStmt .standard) c') :
    Ready (elseBlock .standard) c := by
  refine .succ ?_
  simp only [elseBlock]
  refine .skip hc fun found c₁ h₁ hlength => ?_
  split
  · refine .currentKind ?_
    split
    · next hkind =>
      have hnested := hif c₁ h₁ hlength (by rw [hkind]; decide)
      exact (Steady.andThen h₁ hnested fun _ _ _ _ => .pure _).weaken (Nat.zero_le 1)
    · exact (steady_block h₁ (hstmt.of_le hlength)).weaken (Nat.zero_le 1)
  · exact .get (.pure _)

theorem steady_ifStmt : ∀ {c : Cursor}, c.Ends → c.current.kind ≠ .endOfInput →
    StmtsSettleBehind c → Steady 3 1 (ifStmt .standard) c
  | c, hc, hcurrent, hstmt => by
    refine .succ ?_
    simp only [ifStmt]
    refine Steady.next hc hcurrent fun word c₁ h₁ hlength₁ => ?_
    refine Ready.andThen h₁ (ready_expr h₁) fun condition c₂ h₂ hlength₂ => ?_
    have hstmt₂ := hstmt.of_le (Nat.le_of_lt (Nat.lt_of_le_of_lt hlength₂ hlength₁))
    refine Ready.andThen h₂ (steady_block h₂ hstmt₂) fun thenBlock c₃ h₃ hlength₃ => ?_
    have helse : Ready (elseBlock .standard) c₃ :=
      ready_elseBlock h₃ (hstmt₂.of_le hlength₃) fun c₄ h₄ hlength₄ hif =>
        steady_ifStmt h₄ hif (hstmt₂.of_le (Nat.le_trans hlength₄ hlength₃))
    exact Ready.andThen h₃ helse fun _ _ _ _ => .spanFrom (.pure _)
termination_by c => c.ahead.length

theorem steady_whileStmt (hc : c.Ends) (hcurrent : c.current.kind ≠ .endOfInput)
    (hstmt : StmtsSettleBehind c) : Steady 3 1 (whileStmt .standard) c := by
  refine .succ ?_
  simp only [whileStmt]
  refine Steady.next hc hcurrent fun word c₁ h₁ hlength₁ => ?_
  refine Ready.andThen h₁ (ready_expr h₁) fun condition c₂ h₂ hlength₂ => ?_
  have hstmt₂ := hstmt.of_le (Nat.le_of_lt (Nat.lt_of_le_of_lt hlength₂ hlength₁))
  exact Ready.andThen h₂ (steady_block h₂ hstmt₂) fun _ _ _ _ => .spanFrom (.pure _)

theorem ne_end_of_stmt {kind : TokenKind} {rule : StmtRule}
    (h : Grammar.standard.stmt kind = some rule) : kind ≠ .endOfInput := by
  rintro rfl
  cases h

/-- **Any statement settles**, with four units of fuel for each token left and four more. -/
theorem steady_stmt : ∀ {c : Cursor}, c.Ends → Steady 4 1 (stmt .standard) c
  | c, hc => by
    have hstmt : StmtsSettleBehind c := fun c' hc' _ => steady_stmt hc'
    refine .succ ?_
    simp only [stmt]
    refine .currentKind ?_
    split
    · exact .fail _
    · exact steady_identifierStmt hc
    · next hrule => exact steady_ifStmt hc (ne_end_of_stmt hrule) hstmt
    · next hrule => exact steady_whileStmt hc (ne_end_of_stmt hrule) hstmt
    · next hrule => exact steady_returnStmt hc (ne_end_of_stmt hrule)
termination_by c => c.ahead.length

/-! ## Programs -/

theorem steady_parameter (hc : c.Ends) : Steady d 1 (parameter .standard) c := by
  unfold parameter
  refine Steady.expectFor hc (by decide) fun name c₁ h₁ _ => ?_
  refine Ready.expect h₁ (by decide) fun _ c₂ h₂ _ => .skip h₂ fun _ c₃ h₃ _ => ?_
  exact Ready.andThen h₃ (steady_explicitType h₃ _) fun _ _ _ _ => .spanFrom (.pure _)

theorem steady_function (hc : c.Ends) : Steady d 1 (function .standard) c := by
  unfold function
  refine Steady.expect hc (by decide) fun name c₁ h₁ _ => ?_
  refine Ready.expect h₁ (by decide) fun _ c₂ h₂ _ => ?_
  refine Ready.expect h₂ (by decide) fun _ c₃ h₃ _ => ?_
  have hparameters : Ready (fun fuel => untilParen (parameter .standard fuel) fuel) c₃ :=
    .untilParen h₃ (by omega) fun c' hc' _ => steady_parameter hc'
  refine Ready.andThen h₃ hparameters fun parameters c₄ h₄ _ => ?_
  refine Ready.expectFor h₄ (by decide) fun _ c₅ h₅ _ => ?_
  refine Ready.expectFor h₅ (by decide) fun _ c₆ h₆ _ => ?_
  refine Ready.andThen h₆ (steady_explicitType h₆ _) fun result c₇ h₇ _ => ?_
  refine Ready.expectFor h₇ (by decide) fun _ c₈ h₈ _ => ?_
  have hbody : Steady 4 1 (block .standard) c₈ := steady_block h₈ fun _ hc' _ => steady_stmt hc'
  refine Ready.andThen h₈ hbody fun body c₉ h₉ _ => ?_
  exact .skip h₉ fun _ _ _ _ => .spanFrom (.pure _)

theorem steady_definition (hc : c.Ends) (program : Program) :
    Steady d 1 (definition .standard · program) c := by
  have hvariable : Steady d 1 (fun fuel => varDecl .standard fuel >>= fun decl =>
      return { program with globals := program.globals ++ [decl] }) c :=
    Steady.andThen hc (steady_varDecl hc) fun _ _ _ _ => .pure _
  unfold definition
  refine .currentKind ?_
  split
  · refine .peekKind (.peekKind ?_)
    split
    · exact Steady.andThen hc (steady_function hc) fun _ _ _ _ => .pure _
    · exact hvariable
    · exact hvariable
    · exact Settles.bind (n := 0) (m := 1) hc .pass fun _ _ _ _ => .fail _
  · exact .fail _

/-- **Any definitions settle.** -/
theorem ready_definitions : ∀ {c : Cursor}, c.Ends → ∀ program,
    Ready (definitions .standard · program) c
  | c, hc, program => by
    refine .succ ?_
    simp only [definitions]
    refine .get ?_
    split
    · refine (Steady.andThen hc (steady_definition hc program) ?_).weaken (Nat.zero_le 1)
      exact fun program' c' hc' _ => ready_definitions hc' program'
    · exact .pure _
termination_by c => c.ahead.length

end Parse

/-- How parsing ends: not for want of fuel, and with a cursor that was moved over tokens. -/
theorem advances_definitions (tokens : List Token) :
    Advances 0 (Cursor.ofTokens tokens)
      (Parse.definitions .standard (Cursor.ofTokens tokens).fuel .empty
        (Cursor.ofTokens tokens)) :=
  Parse.advances_ample (Parse.ready_definitions (Cursor.ends_ofTokens tokens) .empty) (by omega)

/-- **Parsing never runs out of fuel**, whatever the tokens are. -/
theorem parse_ne_exhausted (tokens : List Token) : parse tokens ≠ .error .exhausted := by
  have hadvances := advances_definitions tokens
  unfold parse
  dsimp only
  generalize Parse.definitions .standard (Cursor.ofTokens tokens).fuel .empty
    (Cursor.ofTokens tokens) = result at hadvances ⊢
  cases result with
  | ok program c' => nofun
  | error stop c' =>
    rintro ⟨⟩
    exact hadvances.1 rfl

end TypedImp
