import TypedImp.Proofs.Token.Lexemes

/-!
# Longest matches

The first rule of the table that fits a text is taken, and the table is ordered so that this is also
the rule that reaches farthest.  Here the patterns are read as sets of texts, without saying how far
they are followed, and the order of the table is compared with the lengths of all matches.

## Why the order is right

Most pairs of patterns never meet, because no character begins texts of both.  Where they do meet,
the earlier one asks for characters that the later spelling does not have, as `//` does before `/`,
or it is the closed string before the open one.  `Pattern.mayPrecede` checks one pair, and the table
passes the check for every pair in order.  An earlier pattern that fits is then strictly longer than
every match of a later one, so two rules never match the same text.

* `Pattern.Matches`, `Pattern.width?_eq_some_iff`: the texts of a pattern, and the longest of them.
* `Rule.lt_width?_of_earlier`: earlier rules that fit reach farther.
* `Rule.LeadsAt`, `Rule.LeadsAt.length_le`: the first rule that fits.
* `Prolongs`, `Rule.first?_of_matches`: a text that is not prolonged is taken as it stands.
* `standsApart`, `Lexed.not_prolongs_of_standsApart`: characters that prolong no token.
* `Lexed.first_of_not_prolongs`, `Lexeme.not_prolongs_of_first`: tokens are the texts that what
  follows does not prolong.
-/

namespace TypedImp

namespace Pattern

/-- The texts that have, as a whole, the form that a pattern asks for. -/
def Matches : Pattern → List Char → Prop
  | blanks, text => text ≠ [] ∧ ∀ c ∈ text, isBlank c = true
  | lineComment, text => ∃ body, text = '/' :: '/' :: body ∧ ∀ c ∈ body, c ≠ '\n'
  | fixed spelling, text => text = spelling
  | word, text => ∃ c cs, text = c :: cs ∧ isWordStart c = true ∧ ∀ d ∈ cs, isWordPart d = true
  | digits, text => ∃ c cs, text = c :: cs ∧ c.isDigit = true ∧ ∀ d ∈ cs, d.isDigit = true
  | closedString, text => ∃ body, text = '"' :: body ++ ['"'] ∧ ∀ d ∈ body, isStringPart d = true
  | openString, text => ∃ body, text = '"' :: body ∧ ∀ d ∈ body, isStringPart d = true

theorem Covers.matches {p : Pattern} {text rest : List Char} (h : p.Covers text rest) :
    p.Matches text := by
  cases p with
  | lineComment =>
    obtain ⟨body, rfl, hbody, -⟩ := h
    exact ⟨body, rfl, hbody⟩
  | word | digits =>
    obtain ⟨c, cs, rfl, hstart, hpart, -⟩ := h
    exact ⟨c, cs, rfl, hstart, hpart⟩
  | openString =>
    obtain ⟨body, rfl, hbody, -⟩ := h
    exact ⟨body, rfl, hbody⟩
  | blanks | fixed | closedString => exact h

theorem Matches.begins {p : Pattern} {c : Char} {cs : List Char} (h : p.Matches (c :: cs)) :
    p.begins c = true := by
  cases p with
  | blanks => exact h.2 c List.mem_cons_self
  | fixed spelling =>
    obtain rfl : c :: cs = spelling := h
    simp [Pattern.begins]
  | word | digits =>
    obtain ⟨d, ds, heq, hstart, -⟩ := h
    rwa [(List.cons.inj heq).1]
  | lineComment | closedString | openString =>
    obtain ⟨body, heq, -⟩ := h
    simp [Pattern.begins, (List.cons.inj heq).1]

/-! ## The longest match of a pattern -/

theorem length_le_runLength {test : Char → Bool} {run : List Char}
    (h : ∀ c ∈ run, test c = true) (rest : List Char) :
    run.length ≤ runLength test (run ++ rest) := by
  rw [runLength, List.takeWhile_append_of_pos h, List.length_append]
  exact Nat.le_add_right _ _

/-- A pattern reaches over every text of its own at the start of a text. -/
theorem exists_width?_of_matches {p : Pattern} {text : List Char} (h : p.Matches text)
    (rest : List Char) : ∃ width, p.width? (text ++ rest) = some width ∧ text.length ≤ width := by
  cases p with
  | blanks =>
    obtain ⟨hne, hblank⟩ := h
    obtain ⟨c, cs, rfl⟩ := List.exists_cons_of_ne_nil hne
    obtain ⟨hc, hcs⟩ := List.forall_mem_cons.mp hblank
    have hrun := length_le_runLength hcs rest
    exact ⟨1 + runLength isBlank (cs ++ rest), if_pos hc, by simp only [List.length_cons]; omega⟩
  | lineComment =>
    obtain ⟨body, rfl, hbody⟩ := h
    have hline : ∀ c ∈ body, decide (c ≠ '\n') = true := fun c hc => decide_eq_true (hbody c hc)
    have hrun := length_le_runLength hline rest
    exact ⟨2 + runLength (· ≠ '\n') (body ++ rest), rfl, by simp only [List.length_cons]; omega⟩
  | fixed spelling =>
    obtain rfl : text = spelling := h
    exact ⟨text.length, if_pos (List.isPrefixOf_iff_prefix.mpr (List.prefix_append _ _)), le_rfl⟩
  | word =>
    obtain ⟨c, cs, rfl, hc, hcs⟩ := h
    have hrun := length_le_runLength hcs rest
    exact ⟨1 + runLength isWordPart (cs ++ rest), if_pos hc, by simp only [List.length_cons]; omega⟩
  | digits =>
    obtain ⟨c, cs, rfl, hc, hcs⟩ := h
    have hrun := length_le_runLength hcs rest
    exact ⟨1 + runLength Char.isDigit (cs ++ rest), if_pos hc,
      by simp only [List.length_cons]; omega⟩
  | closedString =>
    obtain ⟨body, rfl, hbody⟩ := h
    have hrest : body ++ ['"'] ++ rest = body ++ '"' :: rest := List.append_assoc ..
    have hquote : ((body ++ ['"'] ++ rest).dropWhile isStringPart).head? = some '"' := by
      rw [hrest, List.dropWhile_append_of_pos hbody]
      rfl
    have hrun := length_le_runLength hbody ('"' :: rest)
    rw [← hrest] at hrun
    refine ⟨2 + runLength isStringPart (body ++ ['"'] ++ rest), if_pos hquote, ?_⟩
    simp only [List.length_cons, List.length_append, List.length_nil, List.cons_append]
    omega
  | openString =>
    obtain ⟨body, rfl, hbody⟩ := h
    have hrun := length_le_runLength hbody rest
    exact ⟨1 + runLength isStringPart (body ++ rest), rfl,
      by simp only [List.length_cons]; omega⟩

/-- What a pattern covers is one of its texts. -/
theorem matches_of_width? {p : Pattern} {cs : List Char} {width : Nat}
    (h : p.width? cs = some width) :
    ∃ text rest, cs = text ++ rest ∧ text.length = width ∧ p.Matches text := by
  obtain ⟨text, rest, hsplit, hwidth, hcovers⟩ := covers_of_width? h
  exact ⟨text, rest, hsplit, hwidth, hcovers.matches⟩

/-- **A pattern covers the longest of its texts** that the text begins with. -/
theorem width?_eq_some_iff {p : Pattern} {cs : List Char} {width : Nat} :
    p.width? cs = some width ↔
      (∃ text rest, cs = text ++ rest ∧ text.length = width ∧ p.Matches text) ∧
        ∀ text rest, cs = text ++ rest → p.Matches text → text.length ≤ width := by
  constructor
  · intro h
    refine ⟨matches_of_width? h, fun text rest hsplit htext => ?_⟩
    obtain ⟨width', hwidth', hle⟩ := exists_width?_of_matches htext rest
    rw [← hsplit, h] at hwidth'
    cases hwidth'
    exact hle
  · rintro ⟨⟨text, rest, hsplit, rfl, htext⟩, hlongest⟩
    obtain ⟨width, hwidth, hle⟩ := exists_width?_of_matches htext rest
    rw [← hsplit] at hwidth
    obtain ⟨text', rest', hsplit', rfl, htext'⟩ := matches_of_width? hwidth
    rw [hwidth, le_antisymm (hlongest text' rest' hsplit' htext') hle]

/-! ## Which patterns may come first -/

/-- Characters with which every text of a pattern begins. -/
def stem : Pattern → List Char
  | lineComment => ['/', '/']
  | fixed spelling => spelling
  | closedString | openString => ['"']
  | blanks | word | digits => []

theorem Matches.stem_prefix {p : Pattern} {text : List Char} (h : p.Matches text) :
    p.stem <+: text := by
  cases p with
  | lineComment | openString | closedString =>
    obtain ⟨body, rfl, -⟩ := h
    simp [stem]
  | fixed spelling =>
    obtain rfl : text = spelling := h
    exact List.prefix_rfl
  | blanks | word | digits => exact List.nil_prefix

/-- No pattern of the table asks for more than two characters. -/
theorem length_stem_le : ∀ rule ∈ Rule.table, rule.pattern.stem.length ≤ 2 := by
  decide

/-- Beginnings of a text of a pattern that have all the characters asked for are texts of it, too.
Only the closing quote of a string is asked for at the end. -/
theorem Matches.of_prefix {p : Pattern} {text pre : List Char} (h : p.Matches text)
    (hclosed : p ≠ closedString) (hpre : pre <+: text) (hne : pre ≠ []) (hstem : p.stem <+: pre) :
    p.Matches pre := by
  obtain ⟨more, rfl⟩ := hpre
  cases p with
  | blanks => exact ⟨hne, fun c hc => h.2 c (List.mem_append_left more hc)⟩
  | lineComment =>
    obtain ⟨cs, rfl⟩ := hstem
    obtain ⟨body, heq, hbody⟩ := h
    obtain rfl : cs ++ more = body := (List.cons.inj (List.cons.inj heq).2).2
    exact ⟨cs, rfl, fun c hc => hbody c (List.mem_append_left more hc)⟩
  | fixed spelling =>
    obtain rfl : pre ++ more = spelling := h
    exact (List.prefix_append pre more).eq_of_length_le hstem.length_le
  | word | digits =>
    obtain ⟨c, cs, rfl⟩ := List.exists_cons_of_ne_nil hne
    obtain ⟨d, ds, heq, hstart, hpart⟩ := h
    obtain ⟨rfl, rfl⟩ := List.cons.inj heq
    exact ⟨c, cs, rfl, hstart, fun e he => hpart e (List.mem_append_left more he)⟩
  | openString =>
    obtain ⟨cs, rfl⟩ := hstem
    obtain ⟨body, heq, hbody⟩ := h
    obtain rfl : cs ++ more = body := (List.cons.inj heq).2
    exact ⟨cs, rfl, fun c hc => hbody c (List.mem_append_left more hc)⟩
  | closedString => exact absurd rfl hclosed

/-- The beginnings of a closed string are open strings. -/
theorem Matches.of_prefix_closedString {text pre : List Char} (h : closedString.Matches text)
    (hpre : pre <+: text) (hne : pre ≠ []) : closedString.Matches pre ∨ openString.Matches pre := by
  obtain ⟨body, rfl, hbody⟩ := h
  rcases List.prefix_concat_iff.mp hpre with rfl | hopen
  · exact .inl ⟨body, rfl, hbody⟩
  · have hmatches : openString.Matches ('"' :: body) := ⟨body, rfl, hbody⟩
    obtain ⟨c, cs, rfl⟩ := List.exists_cons_of_ne_nil hne
    obtain ⟨rfl, -⟩ := List.cons_prefix_cons.mp hopen
    exact .inr (hmatches.of_prefix (by decide) hopen hne (by simp [stem]))

/-- Whether `a` may stand before `b` in a table whose first match is to be the longest one. -/
def mayPrecede (a : Pattern) : (b : Pattern) → Bool
  | fixed spelling =>
    !a.stem.isPrefixOf spelling || spelling.head?.any fun c => !a.begins c
  | lineComment => !a.begins '/'
  | closedString => !a.begins '"'
  | openString => a = closedString || !a.begins '"'
  | word => a ∈ [blanks, lineComment, fixed ['/', '*']]
  | digits => a ∈ [blanks, lineComment, fixed ['/', '*'], word]
  | blanks => false

/-- A closed string is longer than the open one that it begins with. -/
theorem lt_width?_closedString {body rest : List Char} {width : Nat}
    (hbody : ∀ d ∈ body, isStringPart d = true)
    (h : closedString.width? ('"' :: body ++ rest) = some width) :
    ('"' :: body).length < width := by
  have hrun := length_le_runLength hbody rest
  rw [List.cons_append, width?] at h
  split at h
  · cases h
    rw [List.length_cons]
    omega
  · cases h

/-- An earlier pattern that fits reaches farther than every text of a later one. -/
theorem lt_width?_of_mayPrecede {a b : Pattern} (h : a.mayPrecede b = true)
    {text rest : List Char} {width : Nat} (htext : b.Matches text)
    (hfits : a.width? (text ++ rest) = some width) : text.length < width := by
  -- a text that begins otherwise is not reached by the earlier pattern at all
  have hapart : ∀ {c cs}, text = c :: cs → a.begins c = false → text.length < width := by
    rintro c cs rfl hc
    rw [List.cons_append, Lexeme.width?_eq_none _ hc] at hfits
    cases hfits
  cases b with
  | fixed spelling =>
    obtain rfl : text = spelling := htext
    simp only [mayPrecede, Bool.or_eq_true, Bool.not_eq_true', Option.any_eq_true] at h
    rcases h with hstem | ⟨c, hc, hbegins⟩
    · obtain ⟨covered, rest', hsplit, rfl, hcovered⟩ := matches_of_width? hfits
      have hprefix : a.stem <+: text ++ rest := by
        rw [hsplit]
        exact hcovered.stem_prefix.trans (List.prefix_append _ _)
      have hnot : ¬ a.stem <+: text := by
        rw [← List.isPrefixOf_iff_prefix, hstem]
        decide
      have hlonger : text <+: a.stem :=
        (List.prefix_or_prefix_of_prefix hprefix (List.prefix_append _ _)).resolve_left hnot
      have hne : text.length ≠ a.stem.length := fun heq =>
        hnot ((hlonger.eq_of_length heq) ▸ List.prefix_rfl)
      have hle := hlonger.length_le
      have hle' := hcovered.stem_prefix.length_le
      omega
    · obtain ⟨cs, rfl⟩ : ∃ cs, text = c :: cs := ⟨text.tail, (List.cons_head?_tail hc).symm⟩
      exact hapart rfl hbegins
  | lineComment =>
    obtain ⟨body, rfl, -⟩ := htext
    exact hapart rfl (by simpa [mayPrecede] using h)
  | closedString =>
    obtain ⟨body, rfl, -⟩ := htext
    exact hapart rfl (by simpa [mayPrecede] using h)
  | openString =>
    obtain ⟨body, rfl, hbody⟩ := htext
    simp only [mayPrecede, Bool.or_eq_true, decide_eq_true_eq, Bool.not_eq_true'] at h
    rcases h with rfl | hbegins
    · exact lt_width?_closedString hbody hfits
    · exact hapart rfl hbegins
  | word =>
    obtain ⟨c, cs, rfl, hc, -⟩ := htext
    obtain ⟨hblanks, hline, hcomment⟩ := Lexeme.not_begins_of_isWordStart hc
    simp only [mayPrecede, decide_eq_true_eq, List.mem_cons, List.not_mem_nil, or_false] at h
    rcases h with rfl | rfl | rfl
    exacts [hapart rfl hblanks, hapart rfl hline, hapart rfl hcomment]
  | digits =>
    obtain ⟨c, cs, rfl, hc, -⟩ := htext
    obtain ⟨hblanks, hline, hcomment, hword⟩ := Lexeme.not_begins_of_isDigit hc
    simp only [mayPrecede, decide_eq_true_eq, List.mem_cons, List.not_mem_nil, or_false] at h
    rcases h with rfl | rfl | rfl | rfl
    exacts [hapart rfl hblanks, hapart rfl hline, hapart rfl hcomment, hapart rfl hword]
  | blanks => cases h

end Pattern

/-! ## The first rule that fits -/

namespace Rule

theorem table_mayPrecede :
    table.Pairwise fun a b => a.pattern.mayPrecede b.pattern = true := by
  decide

/-- Of two rules in the order of the table, the earlier one reaches farther wherever it fits. -/
theorem lt_width?_of_earlier : table.Pairwise fun a b => ∀ {text rest : List Char} {width : Nat},
    b.pattern.Matches text → a.pattern.width? (text ++ rest) = some width →
      text.length < width :=
  table_mayPrecede.imp fun h _ _ _ htext hfits =>
    Pattern.lt_width?_of_mayPrecede h htext hfits

/-- A rule is the first one of the table that fits a text, and reaches over `width` characters. -/
structure LeadsAt (rule : Rule) (cs : List Char) (width : Nat) : Prop where
  fits : rule.pattern.width? cs = some width
  earlier : ∃ before after, table = before ++ rule :: after ∧
    ∀ other ∈ before, other.pattern.width? cs = none

theorem first?_eq_some_iff {cs : List Char} {meaning : Meaning} {width : Nat} :
    first? cs = some (meaning, width) ↔
      ∃ rule : Rule, rule.LeadsAt cs width ∧ rule.meaning = meaning := by
  rw [first?, List.findSome?_eq_some_iff]
  constructor
  · rintro ⟨before, rule, after, htable, hfits, hearlier⟩
    obtain ⟨width', hwidth', heq⟩ := Option.map_eq_some_iff.mp hfits
    cases heq
    exact ⟨rule, ⟨hwidth', before, after, htable, fun other hother =>
      Option.map_eq_none_iff.mp (hearlier other hother)⟩, rfl⟩
  · rintro ⟨rule, ⟨hfits, before, after, htable, hearlier⟩, rfl⟩
    refine ⟨before, rule, after, htable, by rw [hfits]; rfl, fun other hother => ?_⟩
    rw [hearlier other hother]
    rfl

theorem first?_eq_none_iff {cs : List Char} :
    first? cs = none ↔ ∀ rule ∈ table, rule.pattern.width? cs = none := by
  simp only [first?, List.findSome?_eq_none_iff, Option.map_eq_none_iff]

theorem LeadsAt.mem_table {rule : Rule} {cs : List Char} {width : Nat}
    (h : rule.LeadsAt cs width) : rule ∈ table := by
  obtain ⟨before, after, htable, -⟩ := h.earlier
  rw [htable]
  exact List.mem_append_right before List.mem_cons_self

/-- No rule matches more than the first one that fits, and only that one matches as much. -/
theorem LeadsAt.length_lt_or {rule other : Rule} {text rest : List Char} {width : Nat}
    (h : rule.LeadsAt (text ++ rest) width) (hother : other ∈ table)
    (htext : other.pattern.Matches text) :
    text.length < width ∨ other = rule ∧ text.length ≤ width := by
  obtain ⟨hfits, before, after, htable, hearlier⟩ := h
  have hordered := lt_width?_of_earlier
  rw [htable] at hordered hother
  have hafter := (List.pairwise_cons.mp (List.pairwise_append.mp hordered).2.1).1
  rcases List.mem_append.mp hother with hbefore | hrest
  · obtain ⟨width', hwidth', -⟩ := Pattern.exists_width?_of_matches htext rest
    rw [hearlier other hbefore] at hwidth'
    cases hwidth'
  · rcases List.mem_cons.mp hrest with rfl | hlater
    · exact .inr ⟨rfl, (Pattern.width?_eq_some_iff.mp hfits).2 text rest rfl htext⟩
    · exact .inl (hafter other hlater htext hfits)

theorem LeadsAt.length_le {rule other : Rule} {text rest : List Char} {width : Nat}
    (h : rule.LeadsAt (text ++ rest) width) (hother : other ∈ table)
    (htext : other.pattern.Matches text) : text.length ≤ width := by
  rcases h.length_lt_or hother htext with hlt | ⟨-, hle⟩
  · exact hlt.le
  · exact hle

/-- A text that some rule matches has a first rule that fits it. -/
theorem exists_leadsAt {other : Rule} (hother : other ∈ table) {text : List Char}
    (htext : other.pattern.Matches text) (rest : List Char) :
    ∃ (rule : Rule) (width : Nat), rule.LeadsAt (text ++ rest) width := by
  cases hfirst : first? (text ++ rest) with
  | none =>
    obtain ⟨width, hwidth, -⟩ := Pattern.exists_width?_of_matches htext rest
    rw [first?_eq_none_iff.mp hfirst other hother] at hwidth
    cases hwidth
  | some found =>
    obtain ⟨rule, hleads, -⟩ := first?_eq_some_iff.mp hfirst
    exact ⟨rule, found.2, hleads⟩

/-- No two rules match the same text. -/
theorem eq_of_matches {a b : Rule} (ha : a ∈ table) (hb : b ∈ table) {text : List Char}
    (h : a.pattern.Matches text) (h' : b.pattern.Matches text) : a = b := by
  obtain ⟨rule, width, hleads⟩ := exists_leadsAt ha h []
  obtain ⟨covered, rest, hsplit, rfl, -⟩ := Pattern.matches_of_width? hleads.fits
  have hle : covered.length ≤ text.length := by
    have hlength := congrArg List.length hsplit
    rw [List.append_nil, List.length_append] at hlength
    omega
  have heq : ∀ other ∈ table, other.pattern.Matches text → other = rule := by
    intro other hother htext
    rcases hleads.length_lt_or hother htext with hlt | ⟨heq, -⟩
    · omega
    · exact heq
  rw [heq a ha h, heq b hb h']

end Rule

/-! ## Texts that are not prolonged -/

/-- The character `d` behind `text` goes on with it: a rule of the table matches a text that begins
with both. -/
def Prolongs (text : List Char) (d : Char) : Prop :=
  ∃ rule ∈ Rule.table, ∃ more, rule.pattern.Matches (text ++ d :: more)

/-- A text that a rule matches is taken by this rule unless what follows goes on with it. -/
theorem Rule.first?_of_matches {rule : Rule} (hrule : rule ∈ Rule.table) {text rest : List Char}
    (htext : rule.pattern.Matches text) (hends : ∀ d, rest.head? = some d → ¬ Prolongs text d) :
    Rule.first? (text ++ rest) = some (rule.meaning, text.length) := by
  obtain ⟨first, width, hleads⟩ := Rule.exists_leadsAt hrule htext rest
  obtain ⟨covered, rest', hsplit, rfl, hcovered⟩ := Pattern.matches_of_width? hleads.fits
  have hle : covered.length ≤ text.length := by
    by_contra hlt
    rcases List.append_eq_append_iff.mp hsplit with ⟨more, hmore, hrest⟩ | ⟨more, hmore, -⟩
    · cases more with
      | nil =>
        rw [List.append_nil] at hmore
        rw [hmore] at hlt
        exact hlt le_rfl
      | cons d more =>
        exact hends d (by rw [hrest]; rfl) ⟨first, hleads.mem_table, more, hmore ▸ hcovered⟩
    · rw [hmore, List.length_append] at hlt
      omega
  rcases hleads.length_lt_or hrule htext with hlt | ⟨rfl, hge⟩
  · omega
  · rw [Rule.first?_eq_some_iff]
    exact ⟨rule, le_antisymm hle hge ▸ hleads, rfl⟩

/-- If a text can be prolonged at all, the next character alone makes a match. -/
theorem exists_matches_of_prolongs {text : List Char} {d : Char} (hne : text ≠ [])
    (h : Prolongs text d) : ∃ rule ∈ Rule.table, rule.pattern.Matches (text ++ [d]) := by
  obtain ⟨rule, hrule, more, hmatches⟩ := h
  have hprefix : text ++ [d] <+: text ++ d :: more := ⟨more, List.append_assoc ..⟩
  by_cases hclosed : rule.pattern = .closedString
  · rw [hclosed] at hmatches
    rcases hmatches.of_prefix_closedString hprefix (by simp) with hwhole | hopen
    · exact ⟨rule, hrule, hclosed ▸ hwhole⟩
    · exact ⟨⟨.openString, .unclosedLiteral⟩, by decide, hopen⟩
  · have hstem : rule.pattern.stem <+: text ++ [d] := by
      have hlength := Pattern.length_stem_le rule hrule
      have hpos := List.length_pos_iff.mpr hne
      refine List.prefix_of_prefix_length_le hmatches.stem_prefix hprefix ?_
      rw [List.length_append, List.length_singleton]
      omega
    exact ⟨rule, hrule, hmatches.of_prefix hclosed hprefix (by simp) hstem⟩

/-- What the first rule that fits covers is not prolonged by what follows. -/
theorem Rule.LeadsAt.not_prolongs {rule : Rule} {text rest : List Char}
    (h : rule.LeadsAt (text ++ rest) text.length) (hne : text ≠ []) :
    ∀ d, rest.head? = some d → ¬ Prolongs text d := by
  intro d hd hprolongs
  obtain ⟨rest, rfl⟩ : ∃ rest', rest = d :: rest' := ⟨rest.tail, (List.cons_head?_tail hd).symm⟩
  obtain ⟨other, hother, hmatches⟩ := exists_matches_of_prolongs hne hprolongs
  rw [List.append_cons] at h
  have hle := h.length_le hother hmatches
  rw [List.length_append, List.length_singleton] at hle
  omega

/-! ## Characters that stand apart -/

/-- Characters that neither continue a word or a number, nor end a string or a longer sign. -/
def standsApart (c : Char) : Bool := !isWordPart c && c ∉ '"' :: Lexeme.signTails

theorem standsApart_of_isBlank {c : Char} (h : isBlank c = true) : standsApart c = true := by
  have hall : [' ', '\t', '\r', '\n'].all standsApart = true := by decide
  exact List.all_eq_true.mp hall c (by simpa [isBlank, or_assoc] using h)

/-- The patterns whose texts may end with such a character. -/
def Pattern.looseEnded : List Pattern := [.blanks, .lineComment, .openString]

theorem Pattern.mem_looseEnded {rule : Rule} (hrule : rule ∈ Rule.table) {text : List Char}
    {d : Char} (hne : text ≠ []) (h : rule.pattern.Matches (text ++ [d]))
    (hd : standsApart d = true) : rule.pattern ∈ looseEnded := by
  have htails : ∀ rule ∈ Rule.table, rule.pattern.spelling.tail.all (!standsApart ·) = true := by
    decide
  have htail := List.all_eq_true.mp (htails rule hrule)
  have hpart : isWordPart d = false := by
    simp only [standsApart, Bool.and_eq_true, Bool.not_eq_true'] at hd
    exact hd.1
  obtain ⟨c, cs, rfl⟩ := List.exists_cons_of_ne_nil hne
  have hmem : d ∈ cs ++ [d] := List.mem_append_right cs List.mem_cons_self
  obtain ⟨pattern, meaning⟩ := rule
  cases pattern with
  | blanks | lineComment | openString => simp [looseEnded]
  | fixed spelling =>
    obtain rfl : c :: cs ++ [d] = spelling := h
    have hnot := htail d hmem
    rw [hd] at hnot
    cases hnot
  | word =>
    obtain ⟨e, es, heq, -, hes⟩ := h
    obtain rfl : cs ++ [d] = es := (List.cons.inj heq).2
    rw [hes d hmem] at hpart
    cases hpart
  | digits =>
    obtain ⟨e, es, heq, -, hes⟩ := h
    obtain rfl : cs ++ [d] = es := (List.cons.inj heq).2
    simp [isWordPart, Char.isAlphanum, hes d hmem] at hpart
  | closedString =>
    obtain ⟨body, heq, -⟩ := h
    obtain rfl : d = '"' := (List.cons.inj (List.append_inj' heq rfl).2).1
    cases hd

/-- A character that stands apart prolongs only texts that may end with one. -/
theorem Rule.not_prolongs_of_standsApart {rule : Rule} (hrule : rule ∈ Rule.table)
    (hpattern : rule.pattern ∉ Pattern.looseEnded) {text : List Char}
    (htext : rule.pattern.Matches text) (hne : text ≠ []) {d : Char} (hd : standsApart d = true) :
    ¬ Prolongs text d := by
  intro hprolongs
  obtain ⟨other, hother, hmatches⟩ := exists_matches_of_prolongs hne hprolongs
  have hmem := Pattern.mem_looseEnded hother hne hmatches hd
  have hstems : ∀ p ∈ Pattern.looseEnded, p ≠ .closedString ∧
      p.stem.all (!standsApart ·) = true := by
    decide
  obtain ⟨hclosed, hstem⟩ := hstems other.pattern hmem
  have hprefix : other.pattern.stem <+: text := by
    rcases List.prefix_concat_iff.mp hmatches.stem_prefix with heq | hprefix
    · have hmem : d ∈ other.pattern.stem := heq ▸ List.mem_append_right text List.mem_cons_self
      have hnot := List.all_eq_true.mp hstem d hmem
      rw [hd] at hnot
      cases hnot
    · exact hprefix
  -- without the character the other rule matches the same text, so it is the same rule
  have hshorter := hmatches.of_prefix hclosed (List.prefix_append text [d]) hne hprefix
  rw [Rule.eq_of_matches hrule hother htext hshorter] at hpattern
  exact hpattern hmem

/-- Nothing prolongs a point. -/
theorem not_prolongs_point (d : Char) : ¬ Prolongs ['.'] d := by
  rintro ⟨rule, hrule, more, hmatches⟩
  have honly : ∀ rule ∈ Rule.table, rule.pattern.begins '.' = true →
      rule.pattern = .fixed ['.'] := by
    decide
  rw [honly rule hrule hmatches.begins] at hmatches
  cases hmatches

/-! ## Tokens -/

/-- Every token is matched by a rule that stands for it. -/
theorem Lexed.exists_rule {kind : TokenKind} {value : List Char} (h : Lexed kind value) :
    ∃ rule ∈ Rule.table, rule.pattern ∉ Pattern.looseEnded ∧
      rule.pattern.Matches (spelled kind value) ∧ spelled kind value ≠ [] ∧
      ∀ rest, Lexeme.ofRule (spelled kind value ++ rest) (spelled kind value).length rule.meaning =
        ⟨(spelled kind value).length, .token kind (String.ofList value)⟩ := by
  cases h with
  | @word c cs start part =>
    rw [Lexeme.spelled_of_ne (Lexeme.ofWord_ne (by decide) _)]
    refine ⟨⟨.word, .word⟩, by decide, by decide, ⟨c, cs, rfl, start, part⟩,
      List.cons_ne_nil _ _, fun rest => ?_⟩
    simp only [Lexeme.ofRule, List.take_left]
  | @number c cs start part =>
    rw [Lexeme.spelled_of_ne (by decide)]
    refine ⟨⟨.digits, .token .number⟩, by decide, by decide, ⟨c, cs, rfl, start, part⟩,
      List.cons_ne_nil _ _, fun rest => ?_⟩
    simp only [Lexeme.ofRule, List.take_left]
  | string part =>
    refine ⟨⟨.closedString, .literal⟩, by decide, by decide, ⟨value, rfl, part⟩,
      List.cons_ne_nil _ _, fun rest => ?_⟩
    simp [Lexeme.ofRule, spelled]
  | sign rule =>
    have hkind := Rule.kind_of_sign_mem rule
    have hnonempty : ∀ rule ∈ Rule.table, rule.pattern ≠ .fixed [] := by decide
    rw [Lexeme.spelled_of_ne (fun he => hkind (by simp [he]))]
    refine ⟨_, rule, by simp [Rule.sign, Pattern.looseEnded], rfl, ?_, fun rest => ?_⟩
    · rintro rfl
      exact hnonempty _ rule rfl
    · simp only [Rule.sign, Lexeme.ofRule, List.take_left]

/-- **A token is taken as it stands unless what follows goes on with it.** -/
theorem Lexed.first_of_not_prolongs {kind : TokenKind} {value : List Char} (h : Lexed kind value)
    {c : Char} {cs rest : List Char} (hspelled : spelled kind value = c :: cs)
    (hends : ∀ d, rest.head? = some d → ¬ Prolongs (c :: cs) d) :
    Lexeme.first c (cs ++ rest) = ⟨(c :: cs).length, .token kind (String.ofList value)⟩ := by
  obtain ⟨rule, hrule, -, hmatches, -, hlexeme⟩ := h.exists_rule
  rw [hspelled] at hmatches hlexeme
  have hfirst := Rule.first?_of_matches hrule hmatches hends
  rw [List.cons_append] at hfirst
  rw [Lexeme.first, hfirst]
  exact hlexeme rest

/-- A character that stands apart prolongs no token. -/
theorem Lexed.not_prolongs_of_standsApart {kind : TokenKind} {value : List Char}
    (h : Lexed kind value) {d : Char} (hd : standsApart d = true) :
    ¬ Prolongs (spelled kind value) d := by
  obtain ⟨rule, hrule, hpattern, hmatches, hne, -⟩ := h.exists_rule
  exact Rule.not_prolongs_of_standsApart hrule hpattern hmatches hne hd

/-- **No token is followed by a character that goes on with it.** -/
theorem Lexeme.not_prolongs_of_first {c : Char} {cs text rest : List Char} {kind : TokenKind}
    {value : String} (hfound : (Lexeme.first c cs).found = .token kind value)
    (hsplit : c :: cs = text ++ rest) (hne : text ≠ [])
    (hwidth : text.length = (Lexeme.first c cs).width) :
    ∀ d, rest.head? = some d → ¬ Prolongs text d := by
  cases hfirst : Rule.first? (c :: cs) with
  | none => simp [Lexeme.first, hfirst] at hfound
  | some found =>
    obtain ⟨meaning, width⟩ := found
    obtain ⟨rule, hleads, rfl⟩ := Rule.first?_eq_some_iff.mp hfirst
    simp only [Lexeme.first, hfirst] at hfound hwidth
    -- only the width of a comment is not that of its rule
    have hsame : (Lexeme.ofRule (c :: cs) width rule.meaning).width = width := by
      cases hmeaning : rule.meaning with
      | comment =>
        rw [hmeaning] at hfound
        simp only [Lexeme.ofRule] at hfound
        split at hfound <;> cases hfound
      | _ => rfl
    rw [hsame] at hwidth
    subst hwidth
    rw [hsplit] at hleads
    exact hleads.not_prolongs hne

end TypedImp
