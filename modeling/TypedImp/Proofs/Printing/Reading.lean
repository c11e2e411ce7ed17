import TypedImp.Proofs.Printing.Tokens

/-!
# Reading words back

`Gives` says that a computation succeeds, with what result and where it stops, for every amount of
fuel that is enough.  The laws here follow the way computations are put together: one for passing a
token of a known kind, one for each way of looking at the next token, and one for lists with commas.

* `Gives`: success with fuel enough.
* `Gives.bind`, `Gives.expect`, `Gives.next`, `Gives.skip`: computations built from parts.
* `Gives.untilParen`: lists with commas.
-/

namespace TypedImp

section

variable {α β γ : Type} {d e : Nat} {c c' c'' : Cursor}

/-- A computation that succeeds, and then another one. -/
theorem Parse.bind_of_ok {x : Parse α} {f : α → Parse β} {a : α} (h : x c = .ok a c') :
    (x >>= f) c = f a c' := by
  change EStateM.bind x f c = _
  rw [EStateM.bind, h]

/-- A computation that fails, whatever was to come. -/
theorem Parse.bind_of_error {x : Parse α} {f : α → Parse β} {stop : Stop}
    (h : x c = .error stop c') : (x >>= f) c = .error stop c' := by
  change EStateM.bind x f c = _
  rw [EStateM.bind, h]

theorem Parse.next_apply (c : Cursor) : Parse.next c = .ok c.current c.advance := rfl

theorem Parse.expect_apply {kind : TokenKind} (h : c.current.kind = kind) :
    Parse.expect kind c = .ok c.current c.advance := by
  change (if c.current.kind = kind then Parse.next else
    Parse.raise c.unexpected : Parse Token) c = _
  rw [if_pos h]
  rfl

theorem Parse.expectFor_apply {kind : TokenKind} (h : c.current.kind = kind) (message : String) :
    Parse.expectFor kind message c = .ok c.current c.advance := by
  change (if c.current.kind = kind then Parse.next else
    Parse.raise (c.unexpectedFor message) : Parse Token) c = _
  rw [if_pos h]
  rfl

/-- A computation succeeds with the result `a` and stops at `c'`, for every amount of fuel that is
enough. -/
def Gives (d : Nat) (x : Nat → Parse α) (c : Cursor) (a : α) (c' : Cursor) : Prop :=
  ∀ fuel, 4 * c.ahead.length + d ≤ fuel → x fuel c = .ok a c'

namespace Gives

theorem const {x : Parse α} {a : α} (h : x c = .ok a c') : Gives d (fun _ => x) c a c' :=
  fun _ _ => h

theorem pure (a : α) : Gives d (fun _ => Pure.pure a) c a c := const rfl

theorem succ {x : Nat → Parse α} {a : α} (h : Gives d (fun fuel => x (fuel + 1)) c a c') :
    Gives (d + 1) x c a c' := by
  intro fuel hfuel
  obtain ⟨fuel, rfl⟩ : ∃ fuel', fuel = fuel' + 1 := ⟨fuel - 1, by omega⟩
  exact h fuel (by omega)

theorem mono {x : Nat → Parse α} {a : α} (h : Gives e x c a c') (hle : e ≤ d) :
    Gives d x c a c' :=
  fun fuel hfuel => h fuel (by omega)

/-- One computation after the other. -/
theorem bind {x : Nat → Parse α} {f : Nat → α → Parse β} {a : α} {b : β}
    (hx : Gives d x c a c') (hle : 4 * c'.ahead.length + e ≤ 4 * c.ahead.length + d)
    (hf : Gives e (f · a) c' b c'') : Gives d (fun fuel => x fuel >>= f fuel) c b c'' := by
  intro fuel hfuel
  exact (Parse.bind_of_ok (hx fuel hfuel)).trans (hf fuel (by omega))

/-- One computation after the other, where the first has only moved forward. -/
theorem along {x : Nat → Parse α} {f : Nat → α → Parse β} {a : α} {b : β} (hx : Gives e x c a c')
    (hle : e ≤ d) (hmoves : c.Moves c') (hf : Gives d (f · a) c' b c'') :
    Gives d (fun fuel => x fuel >>= f fuel) c b c'' := by
  have hahead := hmoves.ahead_le
  exact (hx.mono hle).bind (by omega) hf

/-! ## Tokens -/

theorem currentKind {f : Nat → TokenKind → Parse α} {a : α}
    (h : Gives d (f · c.current.kind) c a c') :
    Gives d (fun fuel => Parse.currentKind >>= f fuel) c a c' := h

theorem peekKind {n : Nat} {f : Nat → TokenKind → Parse α} {a : α}
    (h : Gives d (f · (c.peek n).kind) c a c') :
    Gives d (fun fuel => Parse.peekKind n >>= f fuel) c a c' := h

theorem get {f : Nat → Cursor → Parse α} {a : α} (h : Gives d (f · c) c a c') :
    Gives d (fun fuel => MonadState.get >>= f fuel) c a c' := h

theorem spanFrom {span : Span} {f : Nat → Span → Parse α} {a : α}
    (h : Gives d (f · (span.join c.previousSpan)) c a c') :
    Gives d (fun fuel => Parse.spanFrom span >>= f fuel) c a c' := h

/-- Passing a token; for each token there are four units of fuel. -/
theorem next (hc : c.Ends) (hcurrent : c.current.kind ≠ .endOfInput) {f : Nat → Token → Parse α}
    {a : α} (h : Gives (d + 4) (f · c.current) c.advance a c') :
    Gives d (fun fuel => Parse.next >>= f fuel) c a c' := by
  have hadvance := c.ahead_advance hc hcurrent
  exact (const (Parse.next_apply c) : Gives d (fun _ => Parse.next) c _ _).bind (by omega) h

theorem expect (hc : c.Ends) {kind : TokenKind} (hkind : c.current.kind = kind)
    (hvisible : kind ≠ .endOfInput) {f : Nat → Token → Parse α} {a : α}
    (h : Gives (d + 4) (f · c.current) c.advance a c') :
    Gives d (fun fuel => Parse.expect kind >>= f fuel) c a c' := by
  have hadvance := c.ahead_advance hc (hkind ▸ hvisible)
  exact (const (Parse.expect_apply hkind) : Gives d (fun _ => Parse.expect kind) c _ _).bind
    (by omega) h

theorem expectFor (hc : c.Ends) {kind : TokenKind} {message : String}
    (hkind : c.current.kind = kind) (hvisible : kind ≠ .endOfInput) {f : Nat → Token → Parse α}
    {a : α} (h : Gives (d + 4) (f · c.current) c.advance a c') :
    Gives d (fun fuel => Parse.expectFor kind message >>= f fuel) c a c' := by
  have hadvance := c.ahead_advance hc (hkind ▸ hvisible)
  exact (const (Parse.expectFor_apply hkind message) :
    Gives d (fun _ => Parse.expectFor kind message) c _ _).bind (by omega) h

theorem skip (hc : c.Ends) {kind : TokenKind} (hkind : c.current.kind = kind)
    (hvisible : kind ≠ .endOfInput) {f : Nat → Bool → Parse α} {a : α}
    (h : Gives (d + 4) (f · true) c.advance a c') :
    Gives d (fun fuel => Parse.skip kind >>= f fuel) c a c' := by
  have hadvance := c.ahead_advance hc (hkind ▸ hvisible)
  have hskip : Parse.skip kind c = .ok true c.advance := by
    change (if c.current.kind = kind then (do let _ ← Parse.next; return true)
      else return false : Parse Bool) c = _
    rw [if_pos hkind]
    rfl
  exact (const hskip : Gives d (fun _ => Parse.skip kind) c _ _).bind (by omega) h

theorem stay {kind : TokenKind} (hkind : c.current.kind ≠ kind) {f : Nat → Bool → Parse α} {a : α}
    (h : Gives d (f · false) c a c') :
    Gives d (fun fuel => Parse.skip kind >>= f fuel) c a c' := by
  have hskip : Parse.skip kind c = .ok false c := by
    change (if c.current.kind = kind then (do let _ ← Parse.next; return true)
      else return false : Parse Bool) c = _
    rw [if_neg hkind]
    rfl
  exact (const hskip : Gives d (fun _ => Parse.skip kind) c _ _).bind (Nat.le_refl _) h

/-! ## Lists with commas -/

/-- What is needed of the items of a list: they are read back up to what `form` forgets, and none of
them looks like the end of the list. -/
def Item (d : Nat) (item : Nat → Parse α) (words : α → List Word) (form : α → α) (b : α) : Prop :=
  ∀ c c' : Cursor, c.Ends → c.Spells (words b) c' →
    c'.current.kind = .comma ∨ c'.current.kind = .closeParen →
    c.current.kind ≠ .closeParen ∧ ∃ a, form a = form b ∧ Gives d item c a c'

theorem commaWords_cons_cons (first second : List Word) (rest : List (List Word)) :
    commaWords (first :: second :: rest) = first ++ .comma :: commaWords (second :: rest) := by
  simp [commaWords]

/-- Items behind one another, with commas between them, where rounds and fuel are counted apart. -/
theorem commaSeparated {item : Nat → Parse α} {words : α → List Word} {form : α → α}
    {first : α} {rest : List α} (hitems : ∀ b ∈ first :: rest, Item d item words form b)
    (hc : c.Ends) (hspells : c.Spells (commaWords ((first :: rest).map words)) c')
    (hclose : c'.current.kind = .closeParen) :
    c.current.kind ≠ .closeParen ∧ ∃ as, as.map form = (first :: rest).map form ∧
      ∀ fuel rounds, 4 * c.ahead.length + d ≤ fuel → c.ahead.length < rounds →
        Parse.commaSeparated (item fuel) rounds c = .ok as c' := by
  induction rest generalizing first c with
  | nil =>
    have hfirst : c.Spells (words first) c' := by
      simpa only [commaWords, List.map_cons, List.map_nil, List.flatMap_nil, List.append_nil]
        using hspells
    obtain ⟨hopen, a, hsame, hgives⟩ :=
      hitems first List.mem_cons_self c c' hc hfirst (.inr hclose)
    refine ⟨hopen, [a], congrArg (· :: []) hsame, fun fuel rounds hfuel hrounds => ?_⟩
    obtain ⟨rounds, rfl⟩ : ∃ r, rounds = r + 1 := ⟨rounds - 1, by omega⟩
    rw [Parse.commaSeparated, Parse.bind_of_ok (hgives fuel hfuel)]
    change (if c'.current.kind = .comma then _ else _ : Parse (List α)) c' = _
    rw [if_neg (by rw [hclose]; decide)]
    rfl
  | cons second rest ih =>
    rw [List.map_cons, List.map_cons, commaWords_cons_cons] at hspells
    obtain ⟨c₁, hfirst, hspells⟩ := Cursor.spells_append hspells
    have hcomma : c₁.current.kind = .comma := hspells.kind_eq
    have hc₁ := hfirst.moves.ends hc
    have hle := hfirst.moves.ahead_le
    have hlt := c₁.ahead_advance hc₁ (by rw [hcomma]; decide)
    obtain ⟨hopen, a, hsame, hgives⟩ :=
      hitems first List.mem_cons_self c c₁ hc hfirst (.inl hcomma)
    obtain ⟨-, -, -, hspells⟩ := hspells.of_token
    obtain ⟨-, as, hsames, hrest⟩ := ih (fun b hb => hitems b (List.mem_cons_of_mem _ hb))
      hc₁.advance hspells
    refine ⟨hopen, a :: as, congrArg₂ List.cons hsame hsames, fun fuel rounds hfuel hrounds => ?_⟩
    obtain ⟨rounds, rfl⟩ : ∃ r, rounds = r + 1 := ⟨rounds - 1, by omega⟩
    rw [Parse.commaSeparated, Parse.bind_of_ok (hgives fuel hfuel)]
    change (if c₁.current.kind = .comma then _ else _ : Parse (List α)) c₁ = _
    rw [if_pos hcomma, Parse.bind_of_ok (Parse.next_apply c₁),
      Parse.bind_of_ok (hrest fuel rounds (by omega) (by omega))]
    rfl

/-- **Lists with commas** are read back. -/
theorem untilParen {item : Nat → Parse α} {words : α → List Word} {form : α → α}
    {items : List α} (hitems : ∀ b ∈ items, Item d item words form b) (hd : 1 ≤ d) (hc : c.Ends)
    (hspells : c.Spells (commaWords (items.map words)) c')
    (hclose : c'.current.kind = .closeParen) :
    ∃ as, as.map form = items.map form ∧
      Gives d (fun fuel => Parse.untilParen (item fuel) fuel) c as c' := by
  unfold Parse.untilParen
  cases items with
  | nil =>
    cases hspells
    refine ⟨[], rfl, .currentKind ?_⟩
    rw [hclose]
    exact .pure _
  | cons first rest =>
    obtain ⟨hopen, as, hsames, hgives⟩ := commaSeparated hitems hc hspells hclose
    refine ⟨as, hsames, .currentKind ?_⟩
    simp only [if_neg hopen]
    exact fun fuel hfuel => hgives fuel fuel hfuel (by omega)

end Gives

end

end TypedImp
