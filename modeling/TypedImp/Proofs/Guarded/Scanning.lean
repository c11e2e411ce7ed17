import TypedImp.Proofs.Guarded.Bytes

/-!
# Scanning over bytes

Scanning as it is done on a text in memory: the place is an offset, the rest of the text is taken
from there, a lexeme is as long as its bytes, and texts of tokens are cut out of the source.  Every
one of these steps may fail.  None of them does, and what is found is what scanning characters
finds.

## What keeps the offsets between characters

A pattern covers whole characters, so a lexeme that it finds ends between two of them.  A comment is
the only lexeme whose length is counted byte by byte, and it ends behind a slash.

* `Lexer`: a source with the place in it and all that was found so far.
* `Lexer.handle?`, `Lexer.step?`, `Lexer.loop?`: the steps, with their failures.
* `Lexer.step?_behind`, `Lexer.loop?_behind`: one step and all steps.
* `tokenize?_eq`: scanning over bytes is scanning.
-/

namespace TypedImp

/-- A scan of a source over its bytes. -/
structure Lexer where
  source : List Char
  place : Position
  /-- Tokens so far, the first one first. -/
  tokens : List Token
  /-- Errors so far, the first one first. -/
  errors : List Error

namespace Lexer

/-- The scan before its first step. -/
def start (source : List Char) : Lexer := ⟨source, .start, [], []⟩

/-- Whether the whole source was passed. -/
def atEnd (l : Lexer) : Bool := byteCount l.source ≤ l.place.offset

/-- The part of the source that was not passed yet. -/
def remainder? (l : Lexer) : Option (List Char) :=
  slice? l.source l.place.offset (byteCount l.source)

/-- Passes `n` bytes, but not the end of the source. -/
def advance? (n : Nat) (l : Lexer) : Option Lexer := do
  let stop := min (l.place.offset + n) (byteCount l.source)
  let text ← slice? l.source l.place.offset stop
  return { l with place := { l.place.advance text with offset := stop } }

/-- Notes a token of the next `n` bytes and passes them. -/
def pushToken? (kind : TokenKind) (n : Nat) (l : Lexer) : Option Lexer := do
  let value ← slice? l.source l.place.offset (l.place.offset + n)
  let l' ← l.advance? n
  return { l' with tokens := l'.tokens ++ [⟨kind, String.ofList value, ⟨l.place, l'.place⟩⟩] }

/-- Notes an error of the next `n` bytes and passes them. -/
def pushError? (cause : Cause) (n : Nat) (l : Lexer) : Option Lexer := do
  let l' ← l.advance? n
  return { l' with errors := l'.errors ++ [⟨cause, ⟨l.place, l'.place⟩⟩] }

/-- A word of `n` bytes. -/
def word? (n : Nat) (l : Lexer) : Option Lexer := do
  let rest ← l.remainder?
  let value ← slice? rest 0 n
  l.pushToken? (.ofWord (String.ofList value)) n

/-- A string literal of `n` bytes.  Its text is what stands between the quotes. -/
def literal? (n : Nat) (l : Lexer) : Option Lexer := do
  let rest ← l.remainder?
  let last ← n.ppred
  let value ← slice? rest 1 last
  let l' ← l.advance? n
  return { l' with tokens := l'.tokens ++ [⟨.string, String.ofList value, ⟨l.place, l'.place⟩⟩] }

/-- A block comment.  The error of one without an end shows its two first bytes. -/
def comment? (l : Lexer) : Option Lexer := do
  let bytes := encode (← l.remainder?)
  match ← commentScan? 0 bytes with
  | some n => l.advance? n
  | none =>
    let l' ← l.advance? bytes.length
    let stop : Position := ⟨l.place.offset + 2, l.place.line, l.place.column + 2⟩
    return { l' with errors := l'.errors ++ [⟨.unterminatedComment, ⟨l.place, stop⟩⟩] }

/-- What is done for a lexeme of `n` bytes. -/
def handle? (n : Nat) : Meaning → Lexer → Option Lexer
  | .separator => advance? n
  | .comment => comment?
  | .word => word? n
  | .token kind => pushToken? kind n
  | .literal => literal? n
  | .unclosedLiteral => pushError? .unterminatedString n

/-- Passes one lexeme. -/
def step? (l : Lexer) : Option Lexer := do
  let rest ← l.remainder?
  match Rule.first? rest with
  | some (meaning, width) => l.handle? (byteCount (rest.take width)) meaning
  | none =>
    let unknown := rest.head?.getD '\x00'
    l.pushError? (.unrecognisedToken (String.singleton unknown)) unknown.utf8Size

/-- Passes lexemes up to the end of the source, if `fuel` steps are enough. -/
def loop? : (fuel : Nat) → Lexer → Option Lexer
  | 0, l => if l.atEnd then some l else none
  | fuel + 1, l => if l.atEnd then some l else l.step?.bind (loop? fuel)

end Lexer

/-- The tokens of a text, or all of its errors, found over the bytes of the text. -/
def tokenize? (source : String) : Option (Except (List Error) (List Token)) := do
  let l ← Lexer.loop? source.length (.start source.toList)
  if l.errors.isEmpty then return .ok (l.tokens ++ [.endAt l.place])
  else return .error l.errors

/-! ## One step -/

namespace Lexer

/-- The scan of a source that has passed `pre`. -/
def behind (pre rest : List Char) (tokens : List Token) (errors : List Error) : Lexer :=
  ⟨pre ++ rest, Position.start.advance pre, tokens, errors⟩

/-- What a scan has found, with one more item. -/
def found (l : Lexer) (item? : Option Item) : Lexer :=
  { l with
    tokens := l.tokens ++ (item?.bind Item.token?).toList
    errors := l.errors ++ (item?.bind Item.error?).toList }

theorem found_behind (pre rest : List Char) (tokens : List Token) (errors : List Error)
    (item? : Option Item) : (behind pre rest tokens errors).found item? =
      behind pre rest (tokens ++ (item?.bind Item.token?).toList)
        (errors ++ (item?.bind Item.error?).toList) := rfl

theorem found_none (l : Lexer) : l.found none = l := by
  simp [found]

theorem found_token (l : Lexer) (token : Token) :
    l.found (some (.token token)) = { l with tokens := l.tokens ++ [token] } := by
  simp [found, Item.token?, Item.error?]

theorem found_fault (l : Lexer) (error : Error) :
    l.found (some (.fault error)) = { l with errors := l.errors ++ [error] } := by
  simp [found, Item.token?, Item.error?]

section

variable (pre text rest : List Char) (tokens : List Token) (errors : List Error)

theorem remainder?_behind : (behind pre rest tokens errors).remainder? = some rest := by
  rw [remainder?, behind, Position.advance_start]
  exact slice?_append_end pre rest

theorem slice?_behind : slice? (behind pre (text ++ rest) tokens errors).source
    (behind pre (text ++ rest) tokens errors).place.offset
    ((behind pre (text ++ rest) tokens errors).place.offset + byteCount text) = some text := by
  rw [behind, Position.advance_start]
  exact slice?_append pre text rest

theorem advance?_behind :
    (behind pre (text ++ rest) tokens errors).advance? (byteCount text) =
      some (behind (pre ++ text) rest tokens errors) := by
  have hoffset : (Position.start.advance (pre ++ text)).offset =
      (Position.start.advance pre).offset + byteCount text := by
    simp only [Position.advance_start, byteCount_append]
  have hstop : min ((behind pre (text ++ rest) tokens errors).place.offset + byteCount text)
      (byteCount (behind pre (text ++ rest) tokens errors).source) =
        (Position.start.advance pre).offset + byteCount text := by
    simp only [behind, Position.advance_start, byteCount_append]
    omega
  have hslice := slice?_behind pre text rest tokens errors
  rw [advance?, hstop]
  simp only [behind] at hslice ⊢
  rw [hslice, ← hoffset]
  simp only [Option.bind_eq_bind, Option.bind_some, Position.advance_append, List.append_assoc]
  rfl

theorem advance?_take (cs : List Char) (n : Nat) :
    (behind pre cs tokens errors).advance? (byteCount (cs.take n)) =
      some (behind (pre ++ cs.take n) (cs.drop n) tokens errors) := by
  have hsplit : behind pre cs tokens errors =
      behind pre (cs.take n ++ cs.drop n) tokens errors := by
    rw [List.take_append_drop]
  rw [hsplit, advance?_behind]

theorem pushToken?_behind (kind : TokenKind) :
    (behind pre (text ++ rest) tokens errors).pushToken? kind (byteCount text) =
      some (behind (pre ++ text) rest
        (tokens ++ [⟨kind, String.ofList text, .ofText pre text⟩]) errors) := by
  rw [pushToken?, slice?_behind, advance?_behind]
  rfl

theorem pushError?_behind (cause : Cause) :
    (behind pre (text ++ rest) tokens errors).pushError? cause (byteCount text) =
      some (behind (pre ++ text) rest tokens (errors ++ [⟨cause, .ofText pre text⟩])) := by
  rw [pushError?, advance?_behind]
  rfl

theorem word?_behind :
    (behind pre (text ++ rest) tokens errors).word? (byteCount text) =
      some (behind (pre ++ text) rest (tokens ++ [⟨.ofWord (String.ofList text),
        String.ofList text, .ofText pre text⟩]) errors) := by
  rw [word?, remainder?_behind]
  simp only [Option.bind_eq_bind, Option.bind_some, slice?_zero]
  exact pushToken?_behind pre text rest tokens errors _

theorem literal?_behind {text body : List Char} (h : text = '"' :: body ++ ['"']) :
    (behind pre (text ++ rest) tokens errors).literal? (byteCount text) =
      some (behind (pre ++ text) rest (tokens ++ [⟨.string, String.ofList body,
        .ofText pre text⟩]) errors) := by
  have hlast : (byteCount text).ppred = some (1 + byteCount body) := by
    have hcount : byteCount text = 1 + byteCount body + 1 := by
      rw [h, byteCount_append]
      rfl
    rw [hcount, Nat.ppred_succ]
  have hvalue : slice? (text ++ rest) 1 (1 + byteCount body) = some body := by
    rw [h, List.append_assoc]
    exact slice?_append ['"'] body (['"'] ++ rest)
  rw [literal?, remainder?_behind]
  simp only [Option.bind_eq_bind, Option.bind_some, hlast, hvalue, advance?_behind]
  rfl

/-- The end of a comment that is opened by a slash and an asterisk. -/
theorem commentScan?_opened (cs : List Char) :
    commentScan? 0 (encode ('/' :: '*' :: cs)) =
      some (((commentWidth? 0 cs).map (2 + ·)).map fun width =>
        byteCount (('/' :: '*' :: cs).take width)) := by
  rw [encode_slash, encode_star, commentScan?, if_pos ⟨rfl, rfl⟩, commentScan?_encode]
  exact congrArg some (map_byteCount_take ['/', '*'] cs _)

end

/-- What is passed and noted down for a lexeme of the text `cs` behind `pre`. -/
def past (pre cs : List Char) (tokens : List Token) (errors : List Error) (lexeme : Lexeme) :
    Lexer :=
  (behind (pre ++ cs.take lexeme.width) (cs.drop lexeme.width) tokens errors).found
    (Item.ofLexeme? (Position.start.advance pre) cs lexeme)

theorem ofText_take (pre cs : List Char) (width : Nat) :
    (⟨Position.start.advance pre, (Position.start.advance pre).advance (cs.take width)⟩ : Span) =
      .ofText pre (cs.take width) := by
  rw [Span.ofText, Position.advance_append]

/-- Only one rule stands for string literals, and only one for comments. -/
theorem pattern_of_meaning : ∀ rule ∈ Rule.table,
    (rule.meaning = .literal → rule.pattern = .closedString) ∧
    (rule.meaning = .comment → rule.pattern = .fixed ['/', '*']) := by
  decide

/-- A comment over bytes ends where it ends over characters. -/
theorem comment?_behind (pre cs : List Char) (tokens : List Token) (errors : List Error) :
    (behind pre ('/' :: '*' :: cs) tokens errors).comment? =
      some (past pre ('/' :: '*' :: cs) tokens errors
        (.ofRule ('/' :: '*' :: cs) 2 .comment)) := by
  rw [comment?, remainder?_behind]
  simp only [Option.bind_eq_bind, Option.bind_some, commentScan?_opened]
  cases hwidth : commentWidth? 0 cs with
  | some width =>
    have hlexeme : Lexeme.ofRule ('/' :: '*' :: cs) 2 .comment = ⟨2 + width, .nothing⟩ := by
      simp only [Lexeme.ofRule, List.drop_succ_cons, List.drop_zero, hwidth]
    rw [hlexeme, past, Item.ofLexeme?, found_none]
    exact advance?_take pre tokens errors ('/' :: '*' :: cs) (2 + width)
  | none =>
    have hlexeme : Lexeme.ofRule ('/' :: '*' :: cs) 2 .comment =
        ⟨('/' :: '*' :: cs).length, .fault .unterminatedComment 2⟩ := by
      simp only [Lexeme.ofRule, List.drop_succ_cons, List.drop_zero, hwidth]
    have hadvance := advance?_take pre tokens errors ('/' :: '*' :: cs) ('/' :: '*' :: cs).length
    rw [List.take_length] at hadvance
    have hstop : (Position.start.advance pre).advance ['/', '*'] =
        ⟨(Position.start.advance pre).offset + 2, (Position.start.advance pre).line,
          (Position.start.advance pre).column + 2⟩ := rfl
    rw [hlexeme, past, Item.ofLexeme?]
    dsimp only [Option.map_none]
    rw [found_fault, length_encode, hadvance, List.take_length, List.take_succ_cons,
      List.take_succ_cons, List.take_zero, hstop]
    rfl

/-- **One lexeme over bytes**: what is found and passed is what is found and passed over
characters. -/
theorem handle?_behind {rule : Rule} (hrule : rule ∈ Rule.table) {cs : List Char} {width : Nat}
    (h : rule.pattern.width? cs = some width) (pre : List Char) (tokens : List Token)
    (errors : List Error) :
    (behind pre cs tokens errors).handle? (byteCount (cs.take width)) rule.meaning =
      some (past pre cs tokens errors (.ofRule cs width rule.meaning)) := by
  obtain ⟨hliteral, hcomment⟩ := pattern_of_meaning rule hrule
  have hsplit : behind pre cs tokens errors =
      behind pre (cs.take width ++ cs.drop width) tokens errors := by
    rw [List.take_append_drop]
  cases hmeaning : rule.meaning with
  | separator =>
    rw [hsplit, handle?, advance?_behind, Lexeme.ofRule, past, Item.ofLexeme?, found_none]
  | comment =>
    rw [hcomment hmeaning] at h
    obtain ⟨text, rest, rfl, rfl, rfl⟩ := Pattern.covers_of_width? h
    exact comment?_behind pre rest tokens errors
  | word =>
    rw [hsplit, handle?, word?_behind, Lexeme.ofRule, past, Item.ofLexeme?]
    dsimp only
    rw [found_token, ofText_take]
    rfl
  | token kind =>
    rw [hsplit, handle?, pushToken?_behind, Lexeme.ofRule, past, Item.ofLexeme?]
    dsimp only
    rw [found_token, ofText_take]
    rfl
  | literal =>
    rw [hliteral hmeaning] at h
    obtain ⟨text, rest, rfl, rfl, body, hbody, -⟩ := Pattern.covers_of_width? h
    have hvalue : ((text ++ rest).take (text.length - 1)).drop 1 = body := by
      rw [hbody]
      simp
    rw [hsplit, handle?, List.take_left, List.drop_left, literal?_behind _ _ _ _ hbody,
      Lexeme.ofRule, past, Item.ofLexeme?]
    dsimp only
    rw [found_token, ofText_take, hvalue, List.take_left, List.drop_left]
    rfl
  | unclosedLiteral =>
    rw [hsplit, handle?, pushError?_behind, Lexeme.ofRule, past, Item.ofLexeme?]
    dsimp only
    rw [found_fault, ofText_take]
    rfl

/-- **One step over bytes** is one step over characters. -/
theorem step?_behind (pre cs : List Char) (c : Char) (tokens : List Token) (errors : List Error) :
    (behind pre (c :: cs) tokens errors).step? =
      some (past pre (c :: cs) tokens errors (.first c cs)) := by
  rw [step?, remainder?_behind]
  simp only [Option.bind_eq_bind, Option.bind_some]
  cases hfirst : Rule.first? (c :: cs) with
  | some found =>
    obtain ⟨rule, hrule, hfits⟩ := List.exists_of_findSome?_eq_some hfirst
    obtain ⟨width, hwidth, rfl⟩ := Option.map_eq_some_iff.mp hfits
    simp only [Lexeme.first, hfirst]
    exact handle?_behind hrule hwidth pre tokens errors
  | none =>
    have herror := pushError?_behind pre [c] cs tokens errors
      (.unrecognisedToken (String.singleton c))
    simp only [Lexeme.first, hfirst, List.head?_cons, Option.getD_some]
    refine herror.trans ?_
    rw [past, Item.ofLexeme?]
    dsimp only
    rw [found_fault, ofText_take]
    rfl

/-! ## All steps -/

theorem atEnd_behind (pre rest : List Char) (tokens : List Token) (errors : List Error) :
    (behind pre rest tokens errors).atEnd = rest.isEmpty := by
  cases rest with
  | nil => simp [atEnd, behind, Position.advance_start]
  | cons c cs =>
    have hpos := byteCount_pos (List.cons_ne_nil c cs)
    simp only [atEnd, behind, Position.advance_start, byteCount_append, List.isEmpty_cons,
      decide_eq_false_iff_not]
    omega

/-- At the end of the source nothing more is done. -/
theorem loop?_end (fuel : Nat) (pre : List Char) (tokens : List Token) (errors : List Error) :
    loop? fuel (behind pre [] tokens errors) = some (behind pre [] tokens errors) := by
  cases fuel <;> rw [loop?, atEnd_behind] <;> rfl

theorem filterMap_toList {α : Type} (f : Item → Option α) (item? : Option Item) :
    item?.toList.filterMap f = (item?.bind f).toList := by
  cases item? with
  | none => rfl
  | some item => cases h : f item <;> simp [h]

/-- The steps go on to the end of the source.  Every step passes a character, so a step for each
character is enough. -/
theorem loop?_behind (fuel : Nat) (pre rest : List Char) (tokens : List Token)
    (errors : List Error) (h : rest.length ≤ fuel) :
    loop? fuel (behind pre rest tokens errors) =
      some (behind (pre ++ rest) []
        (tokens ++ (scan (Position.start.advance pre) rest).filterMap Item.token?)
        (errors ++ (scan (Position.start.advance pre) rest).filterMap Item.error?)) := by
  induction fuel generalizing pre rest tokens errors with
  | zero =>
    obtain rfl : rest = [] := List.length_eq_zero_iff.mp (by omega)
    simp [loop?_end, scan]
  | succ fuel ih =>
    cases rest with
    | nil => simp [loop?_end, scan]
    | cons c cs =>
      obtain ⟨text, rest, hsplit, hne, hwidth, -⟩ := Lexeme.takes_first c cs
      have htake : (c :: cs).take (Lexeme.first c cs).width = text := by
        rw [hsplit, ← hwidth, List.take_left]
      have hdrop : (c :: cs).drop (Lexeme.first c cs).width = rest := by
        rw [hsplit, ← hwidth, List.drop_left]
      have hshorter : rest.length ≤ fuel := by
        have hlength := congrArg List.length hsplit
        have hpos := List.length_pos_iff.mpr hne
        rw [List.length_append] at hlength
        omega
      rw [loop?, atEnd_behind, List.isEmpty_cons, if_neg (by decide), step?_behind,
        Option.bind_some, past, htake, hdrop, found_behind, ih _ _ _ _ hshorter,
        scan_append hsplit hne hwidth, Position.advance_append, List.append_assoc pre text rest,
        ← hsplit]
      simp only [List.filterMap_append, filterMap_toList, List.append_assoc]

end Lexer

/-- **Scanning over bytes never fails**, and it finds what scanning over characters finds. -/
theorem tokenize?_eq (source : String) : tokenize? source = some (tokenize source) := by
  have hloop := Lexer.loop?_behind source.length [] source.toList [] [] (String.length_toList).le
  have hstart : Lexer.start source.toList = Lexer.behind [] source.toList [] [] := rfl
  have hscan : Position.start.advance ([] : List Char) = .start := rfl
  rw [tokenize?, hstart, hloop, tokenize]
  simp only [Option.bind_eq_bind, Option.bind_some, List.nil_append, hscan, Lexer.behind]
  cases (scan .start source.toList).filterMap Item.error? with
  | nil => rfl
  | cons error errors => rfl

end TypedImp
