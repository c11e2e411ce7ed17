import TypedImp.Grammar.Expressions
import TypedImp.Proofs.Grammar.Moves
import TypedImp.Proofs.Printing.WellFormed
import TypedImp.Proofs.Printing.Words
import TypedImp.Proofs.Token.Rescanning

/-!
# From words back to tokens

Words that are written one after the other, with a blank behind each, are scanned as the tokens they
consist of.  Where parsing then stands before these tokens is described by `Cursor.Spells`, which
says what the next words are and forgets where they stand.

* `Word.Legible`: words that are scanned as what they are.
* `scan_spelling`, `scan_spellWords`: scanning one word and a text of words.
* `Cursor.Spells`: the words between two cursors.
* `Cursor.spells_of_tokens`: the cursor before the tokens of some words.
-/

namespace TypedImp

/-! ## Scanning words -/

/-- Words that are scanned as what they are. -/
def Word.Legible : Word → Prop
  | token kind text => Lexed kind text
  | decimal whole fraction => isDigits whole = true ∧ isDigits fraction = true

/-- The tokens of a word that stands behind `pre`. -/
def Word.tokens (pre : List Char) : Word → List Token
  | token kind text => [⟨kind, String.ofList text, .ofText pre (spelled kind text)⟩]
  | decimal whole fraction =>
    [⟨.number, String.ofList whole, .ofText pre whole⟩,
      ⟨.dot, String.ofList ['.'], .ofText (pre ++ whole) ['.']⟩,
      ⟨.number, String.ofList fraction, .ofText (pre ++ whole ++ ['.']) fraction⟩]

/-- The tokens of words that stand behind `pre`. -/
def wordTokens (pre : List Char) : List Word → List Token
  | [] => []
  | w :: ws => w.tokens pre ++ wordTokens (pre ++ w.spelling ++ [' ']) ws

/-- A run of digits has a first one. -/
theorem exists_of_isDigits {cs : List Char} (h : isDigits cs = true) :
    ∃ d ds, cs = d :: ds ∧ d.isDigit = true ∧ ∀ e ∈ ds, e.isDigit = true := by
  cases cs with
  | nil => cases h
  | cons d ds => simpa [isDigits] using h

theorem isDigit_of_mem {cs : List Char} (h : isDigits cs = true) : ∀ c ∈ cs, c.isDigit = true := by
  simp only [isDigits, Bool.and_eq_true, List.all_eq_true] at h
  exact h.2

theorem lexed_of_isDigits {cs : List Char} (h : isDigits cs = true) : Lexed .number cs := by
  obtain ⟨d, ds, rfl, hd, hds⟩ := exists_of_isDigits h
  exact .number hd hds

theorem head_ne_of_isDigits {c : Char} {cs : List Char} (h : isDigits (c :: cs) = true) :
    c ≠ '-' ∧ c ≠ '+' := by
  have hc := isDigit_of_mem h c List.mem_cons_self
  constructor <;> rintro rfl <;> cases hc

theorem numberWords_of_isDigits {text : List Char} (h : isDigits text = true) :
    numberWords text = [.token .number text] := by
  unfold numberWords
  split
  · exact absurd rfl (head_ne_of_isDigits h).1
  · rw [List.dropWhile_eq_nil_iff.mpr (isDigit_of_mem h)]

theorem numberWords_of_point {whole fraction : List Char} (h : isDigits whole = true) :
    numberWords (whole ++ '.' :: fraction) = [.decimal whole fraction] := by
  have hall := isDigit_of_mem h
  obtain ⟨d, ds, rfl, -, -⟩ := exists_of_isDigits h
  unfold numberWords
  split
  · next heq =>
    obtain ⟨rfl, -⟩ := List.cons.inj heq
    exact absurd rfl (head_ne_of_isDigits h).1
  · rw [List.dropWhile_append_of_pos hall, List.takeWhile_append_of_pos hall]
    simp

/-- A word is scanned as its tokens in front of a text that prolongs no token. -/
theorem scan_spelling {w : Word} (h : w.Legible) {rest : List Char}
    (hrest : ∀ d, rest.head? = some d → standsApart d = true) (pre : List Char) :
    scan (Position.start.advance pre) (w.spelling ++ rest) =
      (w.tokens pre).map .token ++ scan (Position.start.advance (pre ++ w.spelling)) rest := by
  cases w with
  | token kind text =>
    exact scan_lexed h (fun d hd => h.not_prolongs_of_standsApart (hrest d hd)) pre
  | decimal whole fraction =>
    have hwhole := lexed_of_isDigits h.1
    have hfraction := lexed_of_isDigits h.2
    have hpoint : Lexed .dot ['.'] := .sign (by decide)
    have hend : ∀ d, ('.' :: (fraction ++ rest)).head? = some d → standsApart d = true := by
      intro d hd
      cases hd
      decide
    have hend' : ∀ d, (fraction ++ rest).head? = some d → ¬ Prolongs ['.'] d :=
      fun d _ => not_prolongs_point d
    have hscan₁ := scan_lexed hwhole
      (fun d hd => hwhole.not_prolongs_of_standsApart (hend d hd)) pre
    have hscan₂ := scan_lexed hpoint hend' (pre ++ whole)
    have hscan₃ := scan_lexed hfraction
      (fun d hd => hfraction.not_prolongs_of_standsApart (hrest d hd)) (pre ++ whole ++ ['.'])
    have hnumber : ∀ text, spelled .number text = text := Lexeme.spelled_of_ne (by decide)
    have hdot : spelled .dot ['.'] = ['.'] := rfl
    rw [hnumber] at hscan₁ hscan₃
    rw [hdot, List.singleton_append] at hscan₂
    have hsplit : whole ++ '.' :: fraction ++ rest = whole ++ '.' :: (fraction ++ rest) :=
      List.append_assoc ..
    simp only [Word.spelling, Word.tokens, List.map_cons, List.map_nil]
    rw [hsplit, hscan₁, hscan₂, hscan₃]
    simp

theorem scan_word {w : Word} (h : w.Legible) (pre rest : List Char) :
    scan (Position.start.advance pre) (w.spelling ++ ' ' :: rest) =
      (w.tokens pre).map .token ++
        scan (Position.start.advance (pre ++ w.spelling ++ [' '])) rest := by
  have hspace : ∀ d, (' ' :: rest).head? = some d → standsApart d = true := by
    intro d hd
    cases hd
    decide
  rw [scan_spelling h hspace, scan_blank (by decide), ← Position.advance_append]

/-- **Words are scanned as the tokens they consist of.** -/
theorem scan_spellWords {ws : List Word} (h : ∀ w ∈ ws, w.Legible) (pre : List Char) :
    scan (Position.start.advance pre) (spellWords ws) = (wordTokens pre ws).map .token := by
  induction ws generalizing pre with
  | nil =>
    simp only [spellWords, List.flatMap_nil, wordTokens, List.map_nil]
    rw [scan]
  | cons w ws ih =>
    have hw := h w List.mem_cons_self
    have hws : ∀ w ∈ ws, w.Legible := fun v hv => h v (List.mem_cons_of_mem w hv)
    have hspell : spellWords (w :: ws) = w.spelling ++ ' ' :: spellWords ws := by
      simp [spellWords]
    rw [hspell, scan_word hw, ih hws, wordTokens, List.map_append]

/-! ## Words between cursors -/

namespace Cursor

/-- From one cursor to another the tokens are those of some words. -/
inductive Spells : Cursor → List Word → Cursor → Prop
  | nil {c : Cursor} : Spells c [] c
  | token {c c' : Cursor} {kind : TokenKind} {text : List Char} {ws : List Word}
    (kind_eq : c.current.kind = kind) (value_eq : c.current.value.toList = text)
    (visible : kind ≠ .endOfInput) (more : Spells c.advance ws c') :
    Spells c (.token kind text :: ws) c'
  | decimal {c c' : Cursor} {whole fraction : List Char} {ws : List Word}
    (kind_eq : c.current.kind = .number) (whole_eq : c.current.value.toList = whole)
    (fraction_eq : c.advance.advance.current.value.toList = fraction)
    (joined : Parse.formsDecimal c.current c.advance.current c.advance.advance.current = true)
    (more : Spells c.advance.advance.advance ws c') : Spells c (.decimal whole fraction :: ws) c'

theorem advance_tokens {c : Cursor} (hc : c.current.kind ≠ .endOfInput) (hahead : c.ahead ≠ []) :
    c.advance.current :: c.advance.ahead = c.ahead := by
  obtain ⟨t, ts, heq⟩ := List.exists_cons_of_ne_nil hahead
  rw [advance_of_cons hc heq, heq]

/-- Before the tokens of some words stand the words. -/
theorem spells_of_tokens {ws : List Word} (h : ∀ w ∈ ws, w.Legible) {pre : List Char} {c : Cursor}
    {last : Token} {more : List Token}
    (hc : c.current :: c.ahead = wordTokens pre ws ++ last :: more) :
    ∃ c', c.Spells ws c' ∧ c'.current = last := by
  induction ws generalizing pre c with
  | nil => exact ⟨c, .nil, (List.cons.inj hc).1⟩
  | cons w ws ih =>
    have hws : ∀ w ∈ ws, w.Legible := fun v hv => h v (List.mem_cons_of_mem w hv)
    have hw := h w List.mem_cons_self
    cases w with
    | token kind text =>
      obtain ⟨hcurrent, hahead⟩ := List.cons.inj hc
      have hkind : c.current.kind = kind := by rw [hcurrent]
      have hvisible := Lexed.ne_end hw
      have hnext := advance_tokens (hkind ▸ hvisible) (by rw [hahead]; simp)
      obtain ⟨c', hspells, hlast⟩ := ih hws (hnext.trans hahead)
      exact ⟨c', .token hkind (by rw [hcurrent, String.toList_ofList]) hvisible hspells, hlast⟩
    | decimal whole fraction =>
      obtain ⟨hwhole, hahead⟩ := List.cons.inj hc
      have hnext := advance_tokens (by rw [hwhole]; nofun) (by rw [hahead]; simp)
      obtain ⟨hpoint, hahead'⟩ := List.cons.inj (hnext.trans hahead)
      have hnext' := advance_tokens (by rw [hpoint]; nofun) (by rw [hahead']; simp)
      obtain ⟨hfraction, hahead''⟩ := List.cons.inj (hnext'.trans hahead')
      have hnext'' := advance_tokens (by rw [hfraction]; nofun) (by rw [hahead'']; simp)
      obtain ⟨c', hspells, hlast⟩ := ih hws (hnext''.trans hahead'')
      refine ⟨c', .decimal (by rw [hwhole]) (by rw [hwhole, String.toList_ofList])
        (by rw [hfraction, String.toList_ofList]) ?_ hspells, hlast⟩
      rw [hwhole, hpoint, hfraction]
      simp [Parse.formsDecimal, Span.ofText]

theorem Spells.moves {c c' : Cursor} {ws : List Word} (h : c.Spells ws c') : c.Moves c' := by
  induction h with
  | nil => exact .refl _
  | token _ _ _ _ ih => exact (moves_advance _).trans ih
  | decimal _ _ _ _ _ ih =>
    exact (moves_advance _).trans ((moves_advance _).trans ((moves_advance _).trans ih))

/-- Words that follow each other have a cursor between them. -/
theorem spells_append {c c' : Cursor} {ws ws' : List Word} (h : c.Spells (ws ++ ws') c') :
    ∃ d, c.Spells ws d ∧ d.Spells ws' c' := by
  induction ws generalizing c with
  | nil => exact ⟨c, .nil, h⟩
  | cons w ws ih =>
    cases h with
    | token kind_eq value_eq visible more =>
      obtain ⟨d, hd, hd'⟩ := ih more
      exact ⟨d, .token kind_eq value_eq visible hd, hd'⟩
    | decimal kind_eq whole_eq fraction_eq joined more =>
      obtain ⟨d, hd, hd'⟩ := ih more
      exact ⟨d, .decimal kind_eq whole_eq fraction_eq joined hd, hd'⟩

/-- The first word is that of the current token. -/
theorem Spells.kind_eq {c c' : Cursor} {w : Word} {ws : List Word} (h : c.Spells (w :: ws) c') :
    c.current.kind = w.kind := by
  cases h with
  | token kind_eq => exact kind_eq
  | decimal kind_eq => exact kind_eq

/-- A word that is a token, and the words behind it. -/
theorem Spells.of_token {c c' : Cursor} {kind : TokenKind} {text : List Char} {ws : List Word}
    (h : c.Spells (.token kind text :: ws) c') : c.current.kind = kind ∧
      c.current.value.toList = text ∧ kind ≠ .endOfInput ∧ c.advance.Spells ws c' := by
  cases h with
  | token kind_eq value_eq visible more => exact ⟨kind_eq, value_eq, visible, more⟩

/-- Every word passes a token. -/
theorem Spells.ahead_le {c c' : Cursor} {ws : List Word} (h : c.Spells ws c') (hc : c.Ends) :
    c'.ahead.length + ws.length ≤ c.ahead.length := by
  induction h with
  | nil => exact Nat.le_refl _
  | @token c c' kind text ws kind_eq _ visible _ ih =>
    have hadvance := c.ahead_advance hc (kind_eq ▸ visible)
    have := ih hc.advance
    simp only [List.length_cons]
    omega
  | @decimal c c' whole fraction ws kind_eq _ _ _ _ ih =>
    have hadvance := c.ahead_advance hc (by rw [kind_eq]; decide)
    have hle := c.advance.moves_advance.ahead_le
    have hle' := c.advance.advance.moves_advance.ahead_le
    have := ih hc.advance.advance.advance
    simp only [List.length_cons]
    omega

end Cursor

end TypedImp
