import Mathlib.Data.List.TakeWhile
import Mathlib.Logic.Function.Iterate
import TypedImp.Grammar.Cursor

/-!
# How parsing moves

Parsing runs on fuel, and the fuel has nothing to do with what is parsed.  This module says so once:
a computation *settles* when all amounts of fuel that are enough give one and the same result, that
result is not the want of fuel, and the cursor has only moved forward over tokens that are not an
end of input.

## Why the three are proved together

How much fuel is enough depends on how many tokens are left, and how many tokens are left behind
another computation depends on its progress.  So progress is needed to see that fuel suffices, and
that fuel suffices is needed to speak of the result at all.

* `Cursor.Moves`, `Cursor.Ends`: moving over tokens; the end of the input comes last.
* `Cursor.Moves.exists_iterate`: wherever parsing gets, it gets by advancing.
* `Cursor.remaining`: how far it is to an end of input.
* `Advances`: a result that was not for want of fuel and passed a number of tokens.
* `Settles`: one result for all amounts of fuel that are enough.
* `Settles.bind`, `Settles.commaSeparated`: computations built from parts.
* `Steady`: what is enough is counted by the tokens left.
-/

namespace TypedImp

/-! ## Cursors -/

namespace Cursor

/-- The cursor is moved forward over tokens, none of which is an end of input. -/
def Moves (c c' : Cursor) : Prop :=
  ∃ passed : List Token, (∀ t ∈ passed, t.kind ≠ .endOfInput) ∧
    c.current :: c.ahead = passed ++ c'.current :: c'.ahead ∧
    c'.before = passed.reverse ++ c.before

/-- The last token is an end of input. -/
def Ends (c : Cursor) : Prop := (c.ahead.getLastD c.current).kind = .endOfInput

theorem ends_ofTokens (tokens : List Token) : (ofTokens tokens).Ends := by
  cases tokens with
  | nil => rfl
  | cons token tokens =>
    unfold ofTokens
    dsimp only
    split
    · next h => exact h
    · simp [Ends, Token.endAt]

theorem before_ofTokens (tokens : List Token) : (ofTokens tokens).before = [] := by
  cases tokens with
  | nil => rfl
  | cons token tokens =>
    unfold ofTokens
    dsimp only
    split <;> rfl

theorem Moves.refl (c : Cursor) : c.Moves c := ⟨[], by simp, rfl, rfl⟩

theorem Moves.trans {c c' c'' : Cursor} (h : c.Moves c') (h' : c'.Moves c'') : c.Moves c'' := by
  obtain ⟨ts, hts, hsplit, hbefore⟩ := h
  obtain ⟨ts', hts', hsplit', hbefore'⟩ := h'
  refine ⟨ts ++ ts', ?_, ?_, ?_⟩
  · intro t ht
    rcases List.mem_append.mp ht with ht | ht
    · exact hts t ht
    · exact hts' t ht
  · rw [hsplit, hsplit', List.append_assoc]
  · rw [hbefore', hbefore, List.reverse_append, List.append_assoc]

theorem Moves.ahead_le {c c' : Cursor} (h : c.Moves c') : c'.ahead.length ≤ c.ahead.length := by
  obtain ⟨ts, -, hsplit, -⟩ := h
  have hlength := congrArg List.length hsplit
  simp only [List.length_cons, List.length_append] at hlength
  omega

theorem Moves.ends {c c' : Cursor} (h : c.Moves c') (hc : c.Ends) : c'.Ends := by
  obtain ⟨ts, -, hsplit, -⟩ := h
  have hlast : c.ahead.getLastD c.current = c'.ahead.getLastD c'.current := by
    have := congrArg List.getLast? hsplit
    simpa [List.getLast?_cons, List.getLast?_append] using this
  unfold Ends at hc ⊢
  rwa [← hlast]

theorem ahead_ne_nil {c : Cursor} (hc : c.Ends) (h : c.current.kind ≠ .endOfInput) :
    c.ahead ≠ [] := by
  intro hnil
  unfold Ends at hc
  rw [hnil] at hc
  exact h hc

theorem advance_of_end {c : Cursor} (h : c.current.kind = .endOfInput) : c.advance = c :=
  if_pos h

theorem advance_of_cons {c : Cursor} {t : Token} {ts : List Token}
    (h : c.current.kind ≠ .endOfInput) (hahead : c.ahead = t :: ts) :
    c.advance = ⟨c.current :: c.before, t, ts⟩ := by
  rw [advance, if_neg h, hahead]

theorem moves_advance (c : Cursor) : c.Moves c.advance := by
  by_cases h : c.current.kind = .endOfInput
  · rw [advance_of_end h]
    exact .refl c
  · cases hahead : c.ahead with
    | nil =>
      have hsame : c.advance = c := by rw [advance, if_neg h, hahead]
      rw [hsame]
      exact .refl c
    | cons t ts =>
      rw [advance_of_cons h hahead]
      refine ⟨[c.current], ?_, ?_, rfl⟩
      · intro t ht
        obtain rfl := List.mem_singleton.mp ht
        exact h
      · rw [hahead]
        rfl

/-- Wherever a cursor is moved, it gets there by advancing. -/
theorem Moves.exists_iterate {c c' : Cursor} (h : c.Moves c') : ∃ k, c' = Cursor.advance^[k] c := by
  obtain ⟨passed, hpassed, hsplit, hbefore⟩ := h
  induction passed generalizing c with
  | nil =>
    obtain ⟨hcurrent, hahead⟩ := List.cons.inj hsplit
    refine ⟨0, ?_⟩
    cases c
    cases c'
    simp_all
  | cons token passed ih =>
    rw [List.cons_append, List.cons.injEq] at hsplit
    obtain ⟨rfl, hrest⟩ := hsplit
    obtain ⟨hcurrent, hmore⟩ := List.forall_mem_cons.mp hpassed
    obtain ⟨next, ahead, hnext⟩ : ∃ next ahead, c.ahead = next :: ahead := by
      cases hahead : c.ahead with
      | nil => rw [hahead] at hrest; simp at hrest
      | cons next ahead => exact ⟨next, ahead, rfl⟩
    have hadvance := advance_of_cons hcurrent hnext
    obtain ⟨k, hk⟩ := ih (c := c.advance) hmore (by rw [hadvance, ← hnext, hrest])
      (by rw [hadvance, hbefore]; simp)
    exact ⟨k + 1, by rw [hk, Function.iterate_succ_apply]⟩

theorem moves_iterate (c : Cursor) (k : Nat) : c.Moves (advance^[k] c) := by
  induction k with
  | zero => exact .refl c
  | succ k ih =>
    rw [Function.iterate_succ_apply']
    exact ih.trans (moves_advance _)

/-! ### How far it is to an end of input -/

/-- Number of tokens from a cursor on before the next end of input. -/
def remaining (c : Cursor) : Nat :=
  ((c.current :: c.ahead).takeWhile fun t => t.kind ≠ .endOfInput).length

theorem remaining_eq_zero_iff (c : Cursor) :
    c.remaining = 0 ↔ c.current.kind = .endOfInput := by
  unfold remaining
  by_cases h : c.current.kind = .endOfInput <;> simp [h]

/-- Moving brings the next end of input nearer by as much. -/
theorem Moves.position_add_remaining {c c' : Cursor} (h : c.Moves c') :
    c'.position + c'.remaining = c.position + c.remaining := by
  obtain ⟨passed, hpassed, hsplit, hbefore⟩ := h
  have htake : ∀ t ∈ passed, decide (t.kind ≠ .endOfInput) = true := fun t ht =>
    decide_eq_true (hpassed t ht)
  rw [position, position, remaining, remaining, hbefore, hsplit,
    List.takeWhile_append_of_pos htake, List.length_append, List.length_append,
    List.length_reverse]
  omega

theorem Moves.position_le {c c' : Cursor} (h : c.Moves c') : c.position ≤ c'.position := by
  obtain ⟨passed, -, -, hbefore⟩ := h
  rw [position, position, hbefore, List.length_append]
  exact Nat.le_add_left _ _

/-- Passing a token means to leave fewer ahead. -/
theorem Moves.position_lt {c c' : Cursor} (h : c.Moves c')
    (hlength : c'.ahead.length < c.ahead.length) : c.position < c'.position := by
  obtain ⟨passed, -, hsplit, hbefore⟩ := h
  have htotal := congrArg List.length hsplit
  simp only [List.length_cons, List.length_append] at htotal
  rw [position, position, hbefore, List.length_append, List.length_reverse]
  omega

theorem Ends.advance {c : Cursor} (hc : c.Ends) : c.advance.Ends := c.moves_advance.ends hc

theorem ahead_advance {c : Cursor} (hc : c.Ends) (h : c.current.kind ≠ .endOfInput) :
    c.advance.ahead.length + 1 = c.ahead.length := by
  obtain ⟨t, ts, hahead⟩ := List.exists_cons_of_ne_nil (ahead_ne_nil hc h)
  rw [advance_of_cons h hahead, hahead, List.length_cons]

theorem before_advance {c : Cursor} (hc : c.Ends) (h : c.current.kind ≠ .endOfInput) :
    c.advance.before = c.current :: c.before := by
  obtain ⟨t, ts, hahead⟩ := List.exists_cons_of_ne_nil (ahead_ne_nil hc h)
  rw [advance_of_cons h hahead]

theorem position_advance {c : Cursor} (hc : c.Ends) (h : c.current.kind ≠ .endOfInput) :
    c.advance.position = c.position + 1 :=
  congrArg List.length (before_advance hc h)

end Cursor

/-! ## Results -/

/-- The result did not come about for want of fuel, the cursor has moved forward, and on success by
at least `n` tokens. -/
def Advances {α : Type} (n : Nat) (c : Cursor) : EStateM.Result Stop Cursor α → Prop
  | .ok _ c' => c.Moves c' ∧ c'.ahead.length + n ≤ c.ahead.length
  | .error stop c' => stop ≠ .exhausted ∧ c.Moves c'

section

variable {ι α β : Type} {enough : ι → Prop} {n : Nat} {c : Cursor}

theorem Advances.mono {r : EStateM.Result Stop Cursor α} {m : Nat} (h : Advances n c r)
    (hle : m ≤ n) : Advances m c r := by
  cases r with
  | ok a c' => exact ⟨h.1, by have := h.2; omega⟩
  | error stop c' => exact h

/-- The result of a computation does not depend on the index, which is an amount of fuel for the
most part, once the index is enough. -/
def Settles (enough : ι → Prop) (n : Nat) (x : ι → Parse α) (c : Cursor) : Prop :=
  ∃ r, (∀ i, enough i → x i c = r) ∧ Advances n c r

/-! ## Computations built from parts -/

namespace Settles

/-- Whatever does not look at the index has only to advance. -/
theorem const {x : Parse α} (h : Advances n c (x c)) : Settles enough n (fun _ => x) c :=
  ⟨x c, fun _ _ => rfl, h⟩

theorem pure (a : α) : Settles enough 0 (fun _ => Pure.pure a) c :=
  const ⟨.refl c, Nat.le_refl _⟩

theorem raise (error : Error) : Settles enough n (fun _ => Parse.raise (α := α) error) c :=
  const ⟨nofun, .refl c⟩

theorem fail (message : String) : Settles enough n (fun _ => Parse.fail (α := α) message) c :=
  const ⟨nofun, .refl c⟩

theorem congr {x y : ι → Parse α} (h : Settles enough n y c) (heq : ∀ i, enough i → x i c = y i c) :
    Settles enough n x c := by
  obtain ⟨r, hr, hadvances⟩ := h
  exact ⟨r, fun i hi => (heq i hi).trans (hr i hi), hadvances⟩

theorem mono {κ : Type} {x : ι → Parse α} {more : κ → Prop} (h : Settles enough n x c) {m : Nat}
    (f : κ → ι) (hmore : ∀ k, more k → enough (f k)) (hle : m ≤ n) :
    Settles more m (fun k => x (f k)) c := by
  obtain ⟨r, hr, hadvances⟩ := h
  exact ⟨r, fun k hk => hr (f k) (hmore k hk), hadvances.mono hle⟩

theorem weaken {x : ι → Parse α} {m : Nat} (h : Settles enough n x c) (hle : m ≤ n) :
    Settles enough m x c :=
  h.mono id (fun _ hi => hi) hle

/-- Where a computation ends, the input still ends, and some of it was passed. -/
theorem ends_of_ok {x : ι → Parse α} (h : Settles enough n x c) (hc : c.Ends) {i : ι}
    (hi : enough i) {a : α} {c' : Cursor} (hok : x i c = .ok a c') :
    c'.Ends ∧ c'.ahead.length + n ≤ c.ahead.length := by
  obtain ⟨r, hr, hadvances⟩ := h
  rw [← hr i hi, hok] at hadvances
  exact ⟨hadvances.1.ends hc, hadvances.2⟩

/-- A computation whose result is known, and another one after it. -/
theorem step {x : ι → Parse α} {f : ι → α → Parse β} {a : α} {c' : Cursor} {m : Nat}
    (hx : ∀ i, enough i → x i c = .ok a c') (hmoves : c.Moves c')
    (hlength : c'.ahead.length + n ≤ c.ahead.length) (hf : Settles enough m (f · a) c') :
    Settles enough (n + m) (fun i => x i >>= f i) c := by
  obtain ⟨r, hr, hadvances⟩ := hf
  refine ⟨r, fun i hi => ?_, ?_⟩
  · change EStateM.bind (x i) (f i) c = r
    rw [EStateM.bind, hx i hi]
    exact hr i hi
  · cases r with
    | ok b c'' => exact ⟨hmoves.trans hadvances.1, by have := hadvances.2; omega⟩
    | error stop c'' => exact ⟨hadvances.1, hmoves.trans hadvances.2⟩

/-- One computation after the other. -/
theorem bind {x : ι → Parse α} {f : ι → α → Parse β} {m : Nat} (hc : c.Ends)
    (hx : Settles enough n x c)
    (hf : ∀ a c', c'.Ends → c'.ahead.length + n ≤ c.ahead.length →
      Settles enough m (f · a) c') :
    Settles enough (n + m) (fun i => x i >>= f i) c := by
  obtain ⟨r, hr, hadvances⟩ := hx
  cases r with
  | ok a c' =>
    obtain ⟨hmoves, hlength⟩ := hadvances
    exact step hr hmoves hlength (hf a c' (hmoves.ends hc) hlength)
  | error stop c' =>
    refine ⟨.error stop c', fun i hi => ?_, hadvances⟩
    change EStateM.bind (x i) (f i) c = _
    rw [EStateM.bind, hr i hi]

/-! ## Looking at tokens and passing them -/

theorem currentKind {f : ι → TokenKind → Parse α} (h : Settles enough n (f · c.current.kind) c) :
    Settles enough n (fun i => Parse.currentKind >>= f i) c :=
  h.congr fun _ _ => rfl

theorem get {f : ι → Cursor → Parse α} (h : Settles enough n (f · c) c) :
    Settles enough n (fun i => MonadState.get >>= f i) c :=
  h.congr fun _ _ => rfl

/-- Passing a token that is not an end of input. -/
theorem next (hc : c.Ends) (hcurrent : c.current.kind ≠ .endOfInput) :
    Settles enough 1 (fun _ => Parse.next) c :=
  const ⟨c.moves_advance, Nat.le_of_eq (c.ahead_advance hc hcurrent)⟩

/-- Passing a token if there is one to pass. -/
theorem pass : Settles enough 0 (fun _ => Parse.next) c :=
  const ⟨c.moves_advance, c.moves_advance.ahead_le⟩

/-- Passing a token of a given kind or failing. -/
theorem expectFor (hc : c.Ends) {kind : TokenKind} (hkind : kind ≠ .endOfInput)
    (message : String) : Settles enough 1 (fun _ => Parse.expectFor kind message) c := by
  refine get (c := c) (f := fun _ c => if c.current.kind = kind then Parse.next else
    Parse.raise (c.unexpectedFor message)) ?_
  split
  · next h => exact next hc (h ▸ hkind)
  · exact raise _

/-! ## Repetition -/

/-- Items with commas between them.  Each round passes a token, so there are enough rounds when they
outnumber the tokens left. -/
theorem commaSeparated {item : ι → Parse α} : ∀ {c : Cursor}, c.Ends →
    (∀ c', c'.Ends → c'.ahead.length ≤ c.ahead.length → Settles enough 1 item c') →
    Settles (fun p : ι × Nat => enough p.1 ∧ c.ahead.length < p.2) 1
      (fun p => Parse.commaSeparated (item p.1) p.2) c
  | c, hc, hitem => by
    have hstep : ∀ p : ι × Nat, enough p.1 ∧ c.ahead.length < p.2 →
        Parse.commaSeparated (item p.1) p.2 c = (item p.1 >>= fun first => do
          if (← Parse.currentKind) = .comma then
            let _ ← Parse.next
            let rest ← Parse.commaSeparated (item p.1) (p.2 - 1)
            return first :: rest
          else return [first]) c := by
      rintro ⟨i, m⟩ ⟨-, hm⟩
      obtain ⟨m, rfl⟩ : ∃ m', m = m' + 1 := ⟨m - 1, by omega⟩
      rfl
    have hfirst : Settles (fun p : ι × Nat => enough p.1 ∧ c.ahead.length < p.2) 1
        (fun p => item p.1) c :=
      (hitem c hc (Nat.le_refl _)).mono Prod.fst (fun p hp => hp.1) (Nat.le_refl _)
    refine (hfirst.bind (m := 0) hc fun first c' hc' hlength => currentKind ?_).congr hstep
    split
    · next hcomma =>
      have hnext : c'.current.kind ≠ .endOfInput := by rw [hcomma]; decide
      refine ((next hc' hnext).bind (m := 1) hc' fun _ c'' hc'' hlength' => ?_).weaken
        (Nat.zero_le _)
      have hrest := commaSeparated hc'' fun d hd hle => hitem d hd (by omega)
      have hrest' : Settles (fun p : ι × Nat => enough p.1 ∧ c.ahead.length < p.2) 1
          (fun p => Parse.commaSeparated (item p.1) (p.2 - 1)) c'' :=
        hrest.mono (fun p : ι × Nat => (p.1, p.2 - 1))
          (fun p hp => ⟨hp.1, by have := hp.2; omega⟩) (Nat.le_refl _)
      exact hrest'.bind hc'' fun rest d _ _ => pure _
    · exact pure _
termination_by c => c.ahead.length

end Settles

/-! ## Fuel by the tokens left -/

/-- A computation settles from an amount of fuel on that grows with the tokens left. -/
abbrev Steady (d n : Nat) (x : Nat → Parse α) (c : Cursor) : Prop :=
  Settles (fun fuel => 4 * c.ahead.length + d ≤ fuel) n x c

namespace Steady

variable {d e m : Nat}

theorem settles {x : Nat → Parse α} {enough : Nat → Prop} (h : Steady d n x c)
    (henough : ∀ fuel, enough fuel → 4 * c.ahead.length + d ≤ fuel) : Settles enough n x c :=
  Settles.mono h id henough (Nat.le_refl n)

theorem mono {x : Nat → Parse α} (h : Steady d n x c) (hd : d ≤ e) (hm : m ≤ n) : Steady e m x c :=
  (h.settles fun _ hfuel => by omega).weaken hm

/-- One unit of fuel for a call. -/
theorem succ {x : Nat → Parse α} (h : Steady d n (fun fuel => x (fuel + 1)) c) :
    Steady (d + 1) n x c := by
  obtain ⟨r, hr, hadvances⟩ := h
  refine ⟨r, fun fuel hfuel => ?_, hadvances⟩
  obtain ⟨fuel, rfl⟩ : ∃ fuel', fuel = fuel' + 1 := ⟨fuel - 1, by omega⟩
  exact hr fuel (by omega)

/-- Behind a computation that passed tokens there is fuel to spare. -/
theorem bind {x : Nat → Parse α} {f : Nat → α → Parse β} (hc : c.Ends) (hx : Steady d n x c)
    (he : e ≤ d + 4 * n)
    (hf : ∀ a c', c'.Ends → c'.ahead.length + n ≤ c.ahead.length → Steady e m (f · a) c') :
    Steady d (n + m) (fun fuel => x fuel >>= f fuel) c := by
  refine Settles.bind hc hx fun a c' hc' hlength => ?_
  exact (hf a c' hc' hlength).settles fun _ hfuel => by omega

/-- Items with commas between them, up to a closing parenthesis. -/
theorem untilParen {item : Nat → Parse α} (hc : c.Ends) (hd : 1 ≤ d)
    (hitem : ∀ c' : Cursor, c'.Ends → c'.ahead.length ≤ c.ahead.length → Steady d 1 item c') :
    Steady d 0 (fun fuel => Parse.untilParen (item fuel) fuel) c := by
  unfold Parse.untilParen
  refine .currentKind ?_
  split
  · exact .pure _
  · have hitems : Settles
        (fun p : Nat × Nat => 4 * c.ahead.length + d ≤ p.1 ∧ c.ahead.length < p.2) 1
        (fun p => Parse.commaSeparated (item p.1) p.2) c :=
      Settles.commaSeparated hc fun c' hc' hle =>
        (hitem c' hc' hle).settles fun _ hfuel => by omega
    exact hitems.mono (fun fuel => (fuel, fuel)) (fun fuel hfuel => ⟨hfuel, by omega⟩)
      (Nat.zero_le _)

end Steady

end

end TypedImp
