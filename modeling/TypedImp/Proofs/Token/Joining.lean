import TypedImp.Proofs.Tiling
import TypedImp.Proofs.Token.Rescanning

/-!
# Texts one below the other

A text without errors may be followed by another text on a new line.  Then scanning finds what it
finds in the two texts: the end of the line prolongs no token and belongs to no line comment, and
strings and block comments are closed where a scan without errors ends.  In the first text
everything stays in its place; in the second one everything is moved by the same distance.

* `Occurrence`: a token by what stands before it in its own text.
* `FindsAnywhere`: what is found in a text wherever it stands and whatever lines follow, with a law
  for each step of a scan.
* `Course.findsAnywhere`: everything in a scan without errors is found in this way.
* `exists_findsAnywhere`, `FindsAnywhere.tokenize_joined`: whole sources, and **two sources on
  different lines**.
-/

namespace TypedImp

/-! ## Tokens in their text -/

/-- A token by what stands before it in its own text, wherever that text is. -/
structure Occurrence where
  before : List Char
  kind : TokenKind
  value : List Char

namespace Occurrence

/-- The token, when its text stands behind `pre`. -/
def token (pre : List Char) (o : Occurrence) : Token :=
  ⟨o.kind, String.ofList o.value, .ofText (pre ++ o.before) (spelled o.kind o.value)⟩

/-- The same token in a longer text. -/
def behind (text : List Char) (o : Occurrence) : Occurrence := ⟨text ++ o.before, o.kind, o.value⟩

theorem token_behind (pre text : List Char) (o : Occurrence) :
    (o.behind text).token pre = o.token (pre ++ text) := by
  rw [token, token, behind, List.append_assoc]

theorem map_behind (pre text : List Char) (found : List Occurrence) :
    (found.map (behind text)).map (token pre) = found.map (token (pre ++ text)) := by
  rw [List.map_map]
  exact List.map_congr_left fun o _ => token_behind pre text o

end Occurrence

/-! ## What is found in a text -/

/-- Wherever the text `cs` stands, and whatever lines follow it, scanning finds these tokens in it
and no error. -/
def FindsAnywhere (cs : List Char) (found : List Occurrence) : Prop :=
  ∀ pre tail, Stops (· ≠ '\n') tail → scan (Position.start.advance pre) (cs ++ tail) =
    (found.map (·.token pre)).map .token ++ scan (Position.start.advance (pre ++ cs)) tail

/-- What stands in front of a text that is followed by other lines stays where it is. -/
theorem Skipped.append_tail {rest text tail : List Char} (h : Skipped rest text)
    (htail : Stops (· ≠ '\n') tail) : Skipped (rest ++ tail) text := by
  induction h with
  | nil => exact .nil
  | blank hblank _ ih => exact .blank hblank ih
  | @lineComment body cs inLine lineEnd _ ih =>
    refine .lineComment inLine ?_ ih
    rw [← List.append_assoc]
    cases hline : cs ++ rest with
    | nil => exact htail
    | cons c ds =>
      rw [hline] at lineEnd
      rintro _ ⟨⟩
      exact lineEnd c rfl
  | blockComment complete _ ih => exact .blockComment complete ih

/-- A token at the end of a text is not prolonged by the lines that follow. -/
theorem Lexed.not_prolongs_tail {kind : TokenKind} {value rest tail : List Char}
    (h : Lexed kind value) (hends : ∀ d, rest.head? = some d → ¬ Prolongs (spelled kind value) d)
    (htail : Stops (· ≠ '\n') tail) :
    ∀ d, (rest ++ tail).head? = some d → ¬ Prolongs (spelled kind value) d := by
  intro d hd
  cases rest with
  | nil =>
    obtain rfl : d = '\n' := of_not_not (of_decide_eq_false (htail d hd))
    exact h.not_prolongs_of_standsApart (standsApart_of_isBlank (by decide))
  | cons c cs => exact hends d hd

namespace FindsAnywhere

variable {rest : List Char} {found : List Occurrence}

theorem nil : FindsAnywhere [] [] := by
  intro pre tail _
  rw [List.append_nil]
  rfl

theorem skip {text : List Char} (h : Skipped rest text) (more : FindsAnywhere rest found) :
    FindsAnywhere (text ++ rest) (found.map (·.behind text)) := by
  intro pre tail htail
  rw [List.append_assoc, scan_skipped (h.append_tail htail), ← Position.advance_append,
    more _ _ htail, Occurrence.map_behind, List.append_assoc]

theorem token {kind : TokenKind} {value : List Char} (h : Lexed kind value)
    (hends : ∀ d, rest.head? = some d → ¬ Prolongs (spelled kind value) d)
    (more : FindsAnywhere rest found) :
    FindsAnywhere (spelled kind value ++ rest)
      (⟨[], kind, value⟩ :: found.map (·.behind (spelled kind value))) := by
  intro pre tail htail
  rw [List.append_assoc, scan_lexed h (h.not_prolongs_tail hends htail), more _ _ htail,
    List.map_cons, List.map_cons, Occurrence.map_behind, Occurrence.token, List.append_nil,
    List.append_assoc]
  rfl

end FindsAnywhere

/-- **A scan without errors finds what it finds wherever the text stands.** -/
theorem Course.findsAnywhere {pre cs : List Char} {items : List Item} (h : Course pre cs items)
    (hclean : items.filterMap Item.error? = []) : ∃ found, FindsAnywhere cs found := by
  induction h with
  | done => exact ⟨[], .nil⟩
  | skip _ skipped _ ih =>
    obtain ⟨found, hfound⟩ := ih hclean
    exact ⟨_, hfound.skip skipped⟩
  | token lexed ends _ ih =>
    obtain ⟨found, hfound⟩ := ih hclean
    exact ⟨_, hfound.token lexed ends⟩
  | fault => cases hclean
  | unclosedComment => cases hclean

/-! ## Whole sources -/

theorem FindsAnywhere.scan_eq {cs : List Char} {found : List Occurrence}
    (h : FindsAnywhere cs found) (pre : List Char) :
    scan (Position.start.advance pre) cs = (found.map (·.token pre)).map .token := by
  have hscan := h pre [] nofun
  rwa [List.append_nil, scan, List.append_nil] at hscan

/-- What the tokens of a source are, wherever the source stands. -/
theorem exists_findsAnywhere {source : String} {tokens : List Token}
    (h : tokenize source = .ok tokens) :
    ∃ found, FindsAnywhere source.toList found ∧ (∀ o ∈ found, o.kind ≠ .endOfInput) ∧
      tokens = found.map (·.token []) ++ [.endAt (Position.start.advance source.toList)] := by
  have hcourse : Course [] source.toList (scan .start source.toList) := course_scan [] _
  obtain ⟨found, hfound⟩ := hcourse.findsAnywhere (tokenize_eq_ok_iff.mp h).1
  have hscan : scan .start source.toList = (found.map (·.token [])).map .token := hfound.scan_eq []
  have hlexed := hcourse.cut.lexed
  rw [hscan, filterMap_token?] at hlexed
  refine ⟨found, hfound, fun o ho => ?_, Except.ok.inj (h.symm.trans (tokenize_of_scan hscan))⟩
  exact (hlexed (o.token []) (List.mem_map_of_mem ho)).ne_end

/-- **Two sources on different lines**: the tokens of the first one, and those of the second one
behind it. -/
theorem FindsAnywhere.tokenize_joined {source source' : String} {found found' : List Occurrence}
    (h : FindsAnywhere source.toList found) (h' : FindsAnywhere source'.toList found') :
    tokenize (source ++ "\n" ++ source') = .ok (found.map (·.token []) ++
      (found'.map (·.token (source.toList ++ ['\n'])) ++
        [.endAt (Position.start.advance (source ++ "\n" ++ source').toList)])) := by
  have htext : (source ++ "\n" ++ source').toList = source.toList ++ '\n' :: source'.toList := by
    simp only [String.toList_append, List.append_assoc]
    rfl
  have hline : Stops (· ≠ '\n') ('\n' :: source'.toList) := by
    rintro _ ⟨⟩
    rfl
  have hscan : scan .start (source ++ "\n" ++ source').toList =
      (found.map (·.token []) ++ found'.map (·.token (source.toList ++ ['\n']))).map .token := by
    rw [htext, List.map_append]
    refine (h [] _ hline).trans ?_
    rw [scan_blank (by decide), ← Position.advance_append, List.nil_append, h'.scan_eq]
  rw [tokenize_of_scan hscan, List.append_assoc]

end TypedImp
