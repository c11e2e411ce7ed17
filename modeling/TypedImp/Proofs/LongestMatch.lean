import TypedImp.Proofs.Token.Longest
import TypedImp.Proofs.Tiling

/-!
# The first match is the longest

The table of rules is tried in order and the first rule that fits is taken.  Whoever reads the table
expects the longest spelling to win: `==` over `=`, a comment over a slash, a closed string over an
open one.  Here this is stated of all texts and all rules, and from it of all tokens: what follows a
token never goes on with it.

* `Token.EndsIn`, `Course.endsIn`: where the tokens of a scan stand, and what follows them.
* `first_match_is_longest`: **the first rule reaches farthest, and no token could be longer**.
-/

namespace TypedImp

/-- The token covers a stretch of the text `cs`, which stands behind `pre`; the stretch spells the
token, and the character behind it does not go on with it. -/
def Token.EndsIn (token : Token) (pre cs : List Char) : Prop :=
  ∃ before text rest, cs = before ++ (text ++ rest) ∧ token.span = .ofText (pre ++ before) text ∧
    text = spelled token.kind token.value.toList ∧ ∀ d, rest.head? = some d → ¬ Prolongs text d

/-- The text in front may be longer. -/
theorem Token.EndsIn.append {token : Token} {pre text cs : List Char}
    (h : token.EndsIn (pre ++ text) cs) : token.EndsIn pre (text ++ cs) := by
  obtain ⟨before, text', rest, rfl, hspan, hspelled, hends⟩ := h
  refine ⟨text ++ before, text', rest, ?_, ?_, hspelled, hends⟩
  · rw [List.append_assoc]
  · rw [hspan, List.append_assoc]

/-- No token that is found could be longer. -/
theorem Course.endsIn {pre cs : List Char} {items : List Item} (h : Course pre cs items)
    {token : Token} (hmem : .token token ∈ items) : token.EndsIn pre cs := by
  induction h with
  | done => cases hmem
  | skip _ _ _ ih => exact (ih hmem).append
  | @token pre rest value kind items _ ends _ ih =>
    rcases List.mem_cons.mp hmem with heq | hmem
    · cases heq
      refine ⟨[], spelled kind value, rest, rfl, by rw [List.append_nil], ?_, ends⟩
      rw [String.toList_ofList]
    · exact (ih hmem).append
  | fault _ _ ih =>
    rcases List.mem_cons.mp hmem with heq | hmem
    · cases heq
    · exact (ih hmem).append
  | unclosedComment => cases hmem with | tail _ hmem => cases hmem

/-- **The first match is the longest.**  At the start of any text either no rule of the table
matches, or there is a first rule that fits, this rule is taken, and no rule matches more than it
covers.  And wherever a token stands in a source, no rule matches a text that begins with the token
and the character behind it. -/
theorem first_match_is_longest (cs : List Char) (source : String) :
    ((∀ rule ∈ Rule.table, ∀ text rest, cs = text ++ rest → ¬ rule.pattern.Matches text) ∧
        Rule.first? cs = none ∨
      ∃ (first : Rule) (width : Nat), first.LeadsAt cs width ∧
        Rule.first? cs = some (first.meaning, width) ∧
        ∀ rule ∈ Rule.table, ∀ text rest, cs = text ++ rest → rule.pattern.Matches text →
          text.length ≤ width) ∧
    ∀ token, .token token ∈ scan .start source.toList →
      ∃ pre text rest, source.toList = pre ++ (text ++ rest) ∧ token.span = .ofText pre text ∧
        text = spelled token.kind token.value.toList ∧
        ∀ d, rest.head? = some d → ¬ Prolongs text d := by
  constructor
  · cases hfirst : Rule.first? cs with
    | none =>
      refine .inl ⟨fun rule hrule text rest hsplit htext => ?_, rfl⟩
      obtain ⟨width, hwidth, -⟩ := Pattern.exists_width?_of_matches htext rest
      rw [← hsplit, Rule.first?_eq_none_iff.mp hfirst rule hrule] at hwidth
      cases hwidth
    | some found =>
      obtain ⟨rule, hleads, hmeaning⟩ := Rule.first?_eq_some_iff.mp hfirst
      refine .inr ⟨rule, found.2, hleads, by rw [hmeaning],
        fun other hother text rest hsplit htext => ?_⟩
      rw [hsplit] at hleads
      exact hleads.length_le hother htext
  · exact fun token hmem => (course_scan [] source.toList).endsIn hmem

/-- The longer spelling wins, and what is left begins the next token. -/
example : Rule.first? "<==1".toList = some (.token .lessEquals, 2) := by decide

end TypedImp
