import Mathlib.Data.List.Basic
import Mathlib.Data.List.TakeWhile
import TypedImp.Token.Scan

/-!
# Lexemes

Scanning takes one lexeme after the other.  Here a lexeme is described by what it is, without the
table of rules: a piece of text that is skipped, a token with its spelling, or a bad stretch.

What scanning takes is of one of these forms, so a text that was scanned is made of them.  Which
rule of the table takes it is mostly decided by its first character.

* `Lexed`, `spelled`: the texts that tokens carry, and how they are written.
* `CommentRest`, `Skipped`: what is passed over.
* `Takes`, `Lexeme.takes_first`: what scanning takes.
* `Lexeme.width?_eq_none`, `Lexeme.first_of_isBlank`, `Lexeme.first_comment`: what the first
  characters decide.
-/

namespace TypedImp

/-- The text that follows does not go on with characters that pass the test. -/
def Stops (test : Char → Bool) (rest : List Char) : Prop :=
  ∀ c, rest.head? = some c → test c = false

/-! ## Tokens -/

/-- The kinds of tokens, with the texts that they may carry. -/
inductive Lexed : TokenKind → List Char → Prop
  | word {c : Char} {cs : List Char} (start : isWordStart c = true)
    (part : ∀ d ∈ cs, isWordPart d = true) : Lexed (.ofWord (String.ofList (c :: cs))) (c :: cs)
  | number {c : Char} {cs : List Char} (start : c.isDigit = true)
    (part : ∀ d ∈ cs, d.isDigit = true) : Lexed .number (c :: cs)
  | string {cs : List Char} (part : ∀ d ∈ cs, isStringPart d = true) : Lexed .string cs
  | sign {spelling : List Char} {kind : TokenKind} (rule : Rule.sign spelling kind ∈ Rule.table) :
    Lexed kind spelling

/-- How a token is written: a string literal has quotes around its text. -/
def spelled (kind : TokenKind) (text : List Char) : List Char :=
  if kind = .string then '"' :: text ++ ['"'] else text

/-! ## What is passed over -/

/-- The rest of a comment of which `depth` levels are open, up to the end of the outermost one. -/
inductive CommentRest : (depth : Nat) → List Char → Prop
  | done : CommentRest 0 []
  | opening {depth : Nat} {cs : List Char} (rest : CommentRest (depth + 2) cs) :
    CommentRest (depth + 1) ('/' :: '*' :: cs)
  | closing {depth : Nat} {cs : List Char} (rest : CommentRest depth cs) :
    CommentRest (depth + 1) ('*' :: '/' :: cs)
  | other {depth : Nat} {c : Char} {cs : List Char} (opens : ∀ ds, c :: cs ≠ '/' :: '*' :: ds)
    (closes : ∀ ds, c :: cs ≠ '*' :: '/' :: ds) (rest : CommentRest (depth + 1) cs) :
    CommentRest (depth + 1) (c :: cs)

/-- Text in front of `rest` that is made of blanks, line comments and block comments.  A line
comment reaches to the end of its line. -/
inductive Skipped (rest : List Char) : List Char → Prop
  | nil : Skipped rest []
  | blank {c : Char} {cs : List Char} (blank : isBlank c = true) (more : Skipped rest cs) :
    Skipped rest (c :: cs)
  | lineComment {body cs : List Char} (inLine : ∀ c ∈ body, c ≠ '\n')
    (lineEnd : Stops (· ≠ '\n') (cs ++ rest)) (more : Skipped rest cs) :
    Skipped rest ('/' :: '/' :: body ++ cs)
  | blockComment {body cs : List Char} (complete : CommentRest 1 body) (more : Skipped rest cs) :
    Skipped rest ('/' :: '*' :: body ++ cs)

theorem Skipped.append {rest cs ds : List Char} (h : Skipped (ds ++ rest) cs)
    (h' : Skipped rest ds) : Skipped rest (cs ++ ds) := by
  induction h with
  | nil => exact h'
  | blank hblank _ ih => exact .blank hblank ih
  | @lineComment body cs inLine lineEnd _ ih =>
    have hend : Stops (· ≠ '\n') (cs ++ ds ++ rest) := by rwa [List.append_assoc]
    simpa only [List.cons_append, List.append_assoc] using ih.lineComment inLine hend
  | @blockComment body cs complete _ ih =>
    simpa only [List.cons_append, List.append_assoc] using ih.blockComment complete

theorem Skipped.of_blanks {rest cs : List Char} (h : ∀ c ∈ cs, isBlank c = true) :
    Skipped rest cs := by
  induction cs with
  | nil => exact .nil
  | cons c cs ih =>
    exact .blank (h c List.mem_cons_self) (ih fun d hd => h d (List.mem_cons_of_mem c hd))

/-- Where a comment is closed, the text up to there is the rest of the comment. -/
theorem commentRest_of_commentWidth? {depth : Nat} {cs : List Char} {width : Nat}
    (h : commentWidth? depth cs = some width) :
    ∃ text rest, cs = text ++ rest ∧ text.length = width ∧ CommentRest (depth + 1) text := by
  fun_induction commentWidth? depth cs generalizing width with
  | case1 depth cs ih =>
    obtain ⟨w, hw, rfl⟩ := Option.map_eq_some_iff.mp h
    obtain ⟨text, rest, rfl, rfl, hrest⟩ := ih hw
    exact ⟨'/' :: '*' :: text, rest, rfl, by simp only [List.length_cons]; omega, .opening hrest⟩
  | case2 cs =>
    cases h
    exact ⟨['*', '/'], cs, rfl, rfl, .closing .done⟩
  | case3 depth cs ih =>
    obtain ⟨w, hw, rfl⟩ := Option.map_eq_some_iff.mp h
    obtain ⟨text, rest, rfl, rfl, hrest⟩ := ih hw
    exact ⟨'*' :: '/' :: text, rest, rfl, by simp only [List.length_cons]; omega, .closing hrest⟩
  | case4 depth c cs hopen hclose hclose' ih =>
    obtain ⟨w, hw, rfl⟩ := Option.map_eq_some_iff.mp h
    obtain ⟨text, rest, rfl, rfl, hrest⟩ := ih hw
    refine ⟨c :: text, rest, rfl, by simp only [List.length_cons]; omega, .other ?_ ?_ hrest⟩
    · rintro ds heq
      obtain ⟨rfl, rfl⟩ := List.cons.inj heq
      exact hopen _ rfl rfl
    · rintro ds heq
      obtain ⟨rfl, rfl⟩ := List.cons.inj heq
      cases depth with
      | zero => exact hclose _ rfl rfl rfl
      | succ n => exact hclose' _ _ rfl rfl rfl
  | case5 => cases h

/-! ## What the patterns cover -/

namespace Pattern

/-- A pattern fits the beginning `text` of a text that goes on with `rest`. -/
def Covers : Pattern → (text rest : List Char) → Prop
  | blanks, text, _ => text ≠ [] ∧ ∀ c ∈ text, isBlank c = true
  | lineComment, text, rest =>
    ∃ body, text = '/' :: '/' :: body ∧ (∀ c ∈ body, c ≠ '\n') ∧ Stops (· ≠ '\n') rest
  | fixed spelling, text, _ => text = spelling
  | word, text, rest => ∃ c cs, text = c :: cs ∧ isWordStart c = true ∧
    (∀ d ∈ cs, isWordPart d = true) ∧ Stops isWordPart rest
  | digits, text, rest => ∃ c cs, text = c :: cs ∧ c.isDigit = true ∧
    (∀ d ∈ cs, d.isDigit = true) ∧ Stops Char.isDigit rest
  | closedString, text, _ => ∃ body, text = '"' :: body ++ ['"'] ∧ ∀ d ∈ body, isStringPart d = true
  | openString, text, rest => ∃ body, text = '"' :: body ∧ (∀ d ∈ body, isStringPart d = true) ∧
    Stops isStringPart rest

/-- The characters that a pattern asks for, if it asks for certain ones. -/
def spelling : Pattern → List Char
  | fixed spelling => spelling
  | _ => []

/-- Whether a text that the pattern fits may begin with a character. -/
def begins : Pattern → Char → Bool
  | blanks, c => isBlank c
  | lineComment, c => c = '/'
  | fixed spelling, c => spelling.head?.all (· = c)
  | word, c => isWordStart c
  | digits, c => c.isDigit
  | closedString, c | openString, c => c = '"'

/-- The longest run of characters that pass a test, and what is left of the text. -/
theorem exists_run (test : Char → Bool) (cs : List Char) :
    ∃ run rest, cs = run ++ rest ∧ run.length = runLength test cs ∧
      (∀ c ∈ run, test c = true) ∧ rest = cs.dropWhile test ∧ Stops test rest := by
  refine ⟨cs.takeWhile test, cs.dropWhile test, (List.takeWhile_append_dropWhile).symm, rfl,
    fun c hc => List.mem_takeWhile_imp hc, rfl, fun c hc => ?_⟩
  have hnot := List.head?_dropWhile_not test cs
  rw [hc] at hnot
  simpa using hnot

/-- Whatever a pattern covers has the form that the pattern asks for. -/
theorem covers_of_width? {p : Pattern} {cs : List Char} {width : Nat}
    (h : p.width? cs = some width) :
    ∃ text rest, cs = text ++ rest ∧ text.length = width ∧ p.Covers text rest := by
  fun_cases width? p cs with
  | case1 c cs hc =>
    obtain ⟨run, rest, rfl, hlength, hrun, -, -⟩ := exists_run isBlank cs
    simp only [width?, if_pos hc, Option.some.injEq] at h
    refine ⟨c :: run, rest, rfl, by simp only [List.length_cons]; omega, List.cons_ne_nil c run, ?_⟩
    intro d hd
    rcases List.mem_cons.mp hd with rfl | hd
    · exact hc
    · exact hrun d hd
  | case2 c cs hc => simp [width?, hc] at h
  | case3 cs =>
    obtain ⟨run, rest, rfl, hlength, hrun, -, hstops⟩ := exists_run (· ≠ '\n') cs
    simp only [width?, Option.some.injEq] at h
    exact ⟨'/' :: '/' :: run, rest, rfl, by simp only [List.length_cons]; omega, run, rfl,
      fun c hc => by simpa using hrun c hc, hstops⟩
  | case4 spelling cs hprefix =>
    obtain ⟨rest, rfl⟩ := List.isPrefixOf_iff_prefix.mp hprefix
    simp only [width?, if_pos hprefix, Option.some.injEq] at h
    exact ⟨spelling, rest, rfl, h, rfl⟩
  | case5 spelling cs hprefix => simp [width?, hprefix] at h
  | case6 c cs hc =>
    obtain ⟨run, rest, rfl, hlength, hrun, -, hstops⟩ := exists_run isWordPart cs
    simp only [width?, if_pos hc, Option.some.injEq] at h
    exact ⟨c :: run, rest, rfl, by simp only [List.length_cons]; omega, c, run, rfl, hc, hrun,
      hstops⟩
  | case7 c cs hc => simp [width?, hc] at h
  | case8 c cs hc =>
    obtain ⟨run, rest, rfl, hlength, hrun, -, hstops⟩ := exists_run Char.isDigit cs
    simp only [width?, if_pos hc, Option.some.injEq] at h
    exact ⟨c :: run, rest, rfl, by simp only [List.length_cons]; omega, c, run, rfl, hc, hrun,
      hstops⟩
  | case9 c cs hc => simp [width?, hc] at h
  | case10 cs hquote =>
    obtain ⟨run, rest, hsplit, hlength, hrun, hrest, -⟩ := exists_run isStringPart cs
    simp only [width?, if_pos hquote, Option.some.injEq] at h
    rw [← hrest] at hquote
    obtain ⟨rest', rfl⟩ : ∃ rest', rest = '"' :: rest' := by
      cases rest with
      | nil => cases hquote
      | cons d rest' => exact ⟨rest', by rw [Option.some.inj hquote]⟩
    refine ⟨'"' :: run ++ ['"'], rest', by simp [hsplit], ?_, run, rfl, hrun⟩
    simp only [List.length_append, List.length_cons, List.length_nil]
    omega
  | case11 cs hquote => simp [width?, hquote] at h
  | case12 cs =>
    obtain ⟨run, rest, rfl, hlength, hrun, -, hstops⟩ := exists_run isStringPart cs
    simp only [width?, Option.some.injEq] at h
    exact ⟨'"' :: run, rest, rfl, by simp only [List.length_cons]; omega, run, rfl, hrun, hstops⟩
  | case13 =>
    rw [width?.eq_def] at h
    split at h <;> simp_all

end Pattern

/-! ## What scanning takes -/

namespace Rule

/-- Whether a rule is that of a token with one spelling. -/
def isSign : Rule → Bool
  | ⟨.fixed (_ :: _), .token _⟩ => true
  | _ => false

/-- Besides seven rules of other forms there are only signs in the table. -/
theorem mem_table_cases : ∀ rule ∈ table,
    rule ∈ [⟨.blanks, .separator⟩, ⟨.lineComment, .separator⟩, ⟨.fixed ['/', '*'], .comment⟩,
      ⟨.word, .word⟩, ⟨.digits, .token .number⟩, ⟨.closedString, .literal⟩,
      ⟨.openString, .unclosedLiteral⟩] ∨ rule.isSign = true := by
  decide

/-- No sign is a string literal, a number, a name or the end of the input. -/
theorem kind_of_sign_mem {spelling : List Char} {kind : TokenKind}
    (h : sign spelling kind ∈ table) : kind ∉ [.string, .number, .identifier, .endOfInput] := by
  have hall : ∀ rule ∈ table, rule.pattern ≠ .digits →
      ∀ k ∈ [TokenKind.string, .number, .identifier, .endOfInput], rule.meaning ≠ .token k := by
    decide
  intro hkind
  exact hall _ h (by simp [sign]) kind hkind rfl

theorem exists_of_isSign {rule : Rule} (h : rule.isSign = true) :
    ∃ spelling kind, rule = sign spelling kind ∧ spelling ≠ [] := by
  unfold isSign at h
  split at h
  · next c cs kind => exact ⟨c :: cs, kind, rfl, List.cons_ne_nil c cs⟩
  · cases h

end Rule

/-- What a lexeme amounts to that takes `text` in front of `rest`. -/
inductive Takes (text rest : List Char) : Found → Prop
  | nothing (skipped : Skipped rest text) : Takes text rest .nothing
  | token {kind : TokenKind} {value : List Char} (lexed : Lexed kind value)
    (spelling : text = spelled kind value) : Takes text rest (.token kind (String.ofList value))
  | unrecognised {c : Char} (single : text = [c]) :
    Takes text rest (.fault (.unrecognisedToken (String.singleton c)) 1)
  | unclosedString {body : List Char} (quote : text = '"' :: body)
    (part : ∀ d ∈ body, isStringPart d = true) (stops : Stops isStringPart rest) :
    Takes text rest (.fault .unterminatedString text.length)
  /-- A comment without an end takes in the rest of the text. -/
  | unclosedComment {body : List Char} (opening : text = '/' :: '*' :: body) (last : rest = []) :
    Takes text rest (.fault .unterminatedComment 2)

namespace Lexeme

theorem spelled_of_ne {kind : TokenKind} (h : kind ≠ .string) (text : List Char) :
    spelled kind text = text := if_neg h

/-- Words are no numbers, no string literals and no end of the input. -/
theorem ofWord_ne {kind : TokenKind} (h : kind ∈ [.string, .number, .endOfInput]) (word : String) :
    TokenKind.ofWord word ≠ kind := by
  rintro rfl
  revert h
  unfold TokenKind.ofWord
  repeat' split
  all_goals decide

end Lexeme

theorem Lexed.ne_end {kind : TokenKind} {text : List Char} (h : Lexed kind text) :
    kind ≠ .endOfInput := by
  cases h with
  | word => exact Lexeme.ofWord_ne (by decide) _
  | number => decide
  | string => decide
  | sign rule =>
    have hkind := Rule.kind_of_sign_mem rule
    rintro rfl
    exact hkind (by simp)

namespace Lexeme

/-- What is taken by a rule of the table. -/
theorem takes_ofRule {rule : Rule} (hrule : rule ∈ Rule.table) {cs : List Char} {width : Nat}
    (h : rule.pattern.width? cs = some width) :
    ∃ text rest, cs = text ++ rest ∧ text ≠ [] ∧
      text.length = (ofRule cs width rule.meaning).width ∧
      Takes text rest (ofRule cs width rule.meaning).found := by
  obtain ⟨text, rest, rfl, rfl, hcovers⟩ := Pattern.covers_of_width? h
  have htake : (text ++ rest).take text.length = text := List.take_left
  have hdrop : (text ++ rest).drop text.length = rest := List.drop_left
  rcases Rule.mem_table_cases rule hrule with hform | hsign
  · simp only [List.mem_cons, List.not_mem_nil, or_false] at hform
    rcases hform with rfl | rfl | rfl | rfl | rfl | rfl | rfl
    · obtain ⟨hne, hblank⟩ := hcovers
      exact ⟨text, rest, rfl, hne, rfl, .nothing (.of_blanks hblank)⟩
    · obtain ⟨body, rfl, hline, hstops⟩ := hcovers
      refine ⟨_, rest, rfl, List.cons_ne_nil _ _, rfl, .nothing ?_⟩
      have hskipped : Skipped rest ('/' :: '/' :: body ++ []) := .lineComment hline hstops .nil
      rwa [List.append_nil] at hskipped
    · obtain rfl : text = ['/', '*'] := hcovers
      -- the pattern only finds the opening, the comment itself may be longer
      have hdrop' : (['/', '*'] ++ rest).drop 2 = rest := rfl
      simp only [ofRule, List.length_cons, List.length_nil, hdrop']
      split
      · next width hwidth =>
        obtain ⟨body, rest', rfl, rfl, hbody⟩ := commentRest_of_commentWidth? hwidth
        refine ⟨'/' :: '*' :: body, rest', rfl, List.cons_ne_nil _ _, ?_, .nothing ?_⟩
        · simp only [List.length_cons]
          omega
        · have hskipped : Skipped rest' ('/' :: '*' :: body ++ []) := .blockComment hbody .nil
          rwa [List.append_nil] at hskipped
      · exact ⟨'/' :: '*' :: rest, [], by simp, List.cons_ne_nil _ _, rfl, .unclosedComment rfl rfl⟩
    · obtain ⟨c, cs, rfl, hstart, hpart, -⟩ := hcovers
      refine ⟨c :: cs, rest, rfl, List.cons_ne_nil _ _, rfl, ?_⟩
      simp only [ofRule, htake]
      exact .token (.word hstart hpart) (spelled_of_ne (ofWord_ne (by decide) _) _).symm
    · obtain ⟨c, cs, rfl, hstart, hpart, -⟩ := hcovers
      refine ⟨c :: cs, rest, rfl, List.cons_ne_nil _ _, rfl, ?_⟩
      simp only [ofRule, htake]
      exact .token (.number hstart hpart) (spelled_of_ne (by decide) _).symm
    · obtain ⟨body, rfl, hpart⟩ := hcovers
      refine ⟨_, rest, rfl, List.cons_ne_nil _ _, rfl, ?_⟩
      have hvalue : ((('"' :: body ++ ['"']) ++ rest).take
          (('"' :: body ++ ['"']).length - 1)).drop 1 = body := by
        simp
      simp only [ofRule, hvalue]
      exact .token (.string hpart) rfl
    · obtain ⟨body, rfl, hpart, hstops⟩ := hcovers
      exact ⟨_, rest, rfl, List.cons_ne_nil _ _, rfl, .unclosedString rfl hpart hstops⟩
  · obtain ⟨spelling, kind, rfl, hne⟩ := Rule.exists_of_isSign hsign
    obtain rfl : text = spelling := hcovers
    have hkind := Rule.kind_of_sign_mem hrule
    refine ⟨text, rest, rfl, hne, rfl, ?_⟩
    simp only [Rule.sign, ofRule, htake]
    exact .token (.sign hrule) (spelled_of_ne (fun he => hkind (by simp [he])) text).symm

/-- What scanning takes at the start of a text that is not empty. -/
theorem takes_first (c : Char) (cs : List Char) :
    ∃ text rest, c :: cs = text ++ rest ∧ text ≠ [] ∧ text.length = (first c cs).width ∧
      Takes text rest (first c cs).found := by
  unfold first
  cases hfirst : Rule.first? (c :: cs) with
  | none => exact ⟨[c], cs, rfl, List.cons_ne_nil _ _, rfl, .unrecognised rfl⟩
  | some found =>
    obtain ⟨rule, hrule, hfits⟩ := List.exists_of_findSome?_eq_some hfirst
    obtain ⟨width, hwidth, rfl⟩ := Option.map_eq_some_iff.mp hfits
    exact takes_ofRule hrule hwidth

/-! ## How a lexeme begins -/

/-- The longest run of characters that pass a test, in front of a text that does not go on with
it. -/
theorem runLength_append {test : Char → Bool} {run rest : List Char}
    (h : ∀ c ∈ run, test c = true) (hstops : Stops test rest) :
    Pattern.runLength test (run ++ rest) = run.length := by
  unfold Pattern.runLength
  have hrest : rest.takeWhile test = [] := by
    cases rest with
    | nil => rfl
    | cons c cs => simp [hstops c rfl]
  rw [List.takeWhile_append_of_pos h, hrest, List.append_nil]

/-- A pattern that begins otherwise does not fit. -/
theorem width?_eq_none {p : Pattern} {c : Char} (cs : List Char) (h : p.begins c = false) :
    p.width? (c :: cs) = none := by
  cases p with
  | fixed spelling =>
    cases spelling with
    | nil => cases h
    | cons d ds =>
      have hne : ¬ d = c := by simpa [Pattern.begins] using h
      simp [Pattern.width?, hne]
  | _ => simp_all [Pattern.begins, Pattern.width?]

/-- Characters that begin words, numbers and string literals begin nothing that comes earlier in the
table. -/
theorem not_begins_of_isWordStart {c : Char} (h : isWordStart c = true) :
    Pattern.blanks.begins c = false ∧ Pattern.lineComment.begins c = false ∧
      (Pattern.fixed ['/', '*']).begins c = false := by
  have hblank : c ≠ ' ' ∧ c ≠ '\t' ∧ c ≠ '\r' ∧ c ≠ '\n' ∧ c ≠ '/' := by
    refine ⟨?_, ?_, ?_, ?_, ?_⟩ <;> rintro rfl <;> exact absurd h (by decide)
  obtain ⟨h₁, h₂, h₃, h₄, h₅⟩ := hblank
  simp [Pattern.begins, isBlank, h₁, h₂, h₃, h₄, h₅, Ne.symm h₅]

theorem not_begins_of_isDigit {c : Char} (h : c.isDigit = true) :
    Pattern.blanks.begins c = false ∧ Pattern.lineComment.begins c = false ∧
      (Pattern.fixed ['/', '*']).begins c = false ∧ Pattern.word.begins c = false := by
  have hne : c ≠ ' ' ∧ c ≠ '\t' ∧ c ≠ '\r' ∧ c ≠ '\n' ∧ c ≠ '/' ∧ c ≠ '_' := by
    refine ⟨?_, ?_, ?_, ?_, ?_, ?_⟩ <;> rintro rfl <;> exact absurd h (by decide)
  obtain ⟨h₁, h₂, h₃, h₄, h₅, h₆⟩ := hne
  have halpha : c.isAlpha = false := by
    delta Char.isDigit at h
    delta Char.isAlpha Char.isUpper Char.isLower
    simp only [Bool.and_eq_true, decide_eq_true_eq, Bool.or_eq_false_iff, Bool.and_eq_false_iff,
      decide_eq_false_iff_not, ge_iff_le, UInt32.le_iff_toNat_le, Char.reduceVal,
      UInt32.reduceToNat] at h ⊢
    omega
  simp [Pattern.begins, isBlank, isWordStart, halpha, h₁, h₂, h₃, h₄, h₅, h₆, Ne.symm h₅]

/-- Blanks are passed over together. -/
theorem first_of_isBlank {b : Char} (hb : isBlank b = true) (cs : List Char) :
    first b cs = ⟨1 + Pattern.runLength isBlank cs, .nothing⟩ := by
  simp only [first, Rule.first?, Rule.table, List.findSome?_cons, Pattern.width?, if_pos hb,
    Option.map_some, ofRule]

/-- A slash and an asterisk are taken as the beginning of a comment, whatever follows. -/
theorem first_comment (cs : List Char) :
    first '/' ('*' :: cs) = ofRule ('/' :: '*' :: cs) 2 .comment := by
  have hopening : (Pattern.fixed ['/', '*']).width? ('/' :: '*' :: cs) = some 2 := rfl
  have hfirst : Rule.first? ('/' :: '*' :: cs) = some (.comment, 2) := by
    simp only [Rule.first?, Rule.table, List.findSome?_cons,
      width?_eq_none (p := .blanks) _ (by decide : Pattern.blanks.begins '/' = false),
      show Pattern.lineComment.width? ('/' :: '*' :: cs) = none from rfl, hopening,
      Option.map_none, Option.map_some]
  simp only [first, hfirst]

/-- Characters that make a longer sign, or the beginning of a comment, of a sign before them. -/
def signTails : List Char := ['>', '=', '/', '*']

end Lexeme

end TypedImp
