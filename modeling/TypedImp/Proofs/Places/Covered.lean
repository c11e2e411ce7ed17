import TypedImp.Proofs.Places.Trees
import TypedImp.Proofs.Tiling

/-!
# Spans that cover text

A span that is worth showing begins at a character that can be seen and ends behind it.  Scanning
notes down only such spans, and joining two of them gives another one as long as the second does not
end before the first begins.  Besides these there is one empty span, at the end of the text.

## Why the first character is not a blank

When a line is shown, its line break and a carriage return before it are left out.  A span that
began with one of them would begin behind the end of the line that is shown.

* `Span.Covers`, `Span.Covers.join`: spans of visible text.
* `Span.Points`: spans of visible text, and the end of the text.
* `covers_of_mem_scan`: scanning notes down such spans, and its errors are found before a run.
-/

namespace TypedImp

/-- A span of the source that begins with a visible character. -/
def Span.Covers (source : List Char) (s : Span) : Prop :=
  ∃ pre c text rest, source = pre ++ (c :: text ++ rest) ∧ isBlank c = false ∧
    s = .ofText pre (c :: text)

/-- The empty span at the end of the source. -/
def Span.atEnd (source : List Char) : Span :=
  ⟨Position.start.advance source, Position.start.advance source⟩

/-- A span of visible text, or the end of the text. -/
def Span.Points (source : List Char) (s : Span) : Prop := s.Covers source ∨ s = .atEnd source

namespace Span.Covers

variable {source : List Char} {s t : Span}

theorem start_lt_stop (h : s.Covers source) : s.start.offset < s.stop.offset := by
  obtain ⟨pre, c, text, rest, -, -, rfl⟩ := h
  have hpos := byteCount_pos (List.cons_ne_nil c text)
  rw [Span.ofText_start_offset, Span.ofText_stop_offset, byteCount_append]
  omega

/-- No span of visible text ends behind the end of the text. -/
theorem stop_le (h : s.Covers source) :
    s.stop.offset ≤ (Position.start.advance source).offset := by
  obtain ⟨pre, c, text, rest, rfl, -, rfl⟩ := h
  rw [Span.ofText_stop_offset, ← List.append_assoc, Position.advance_start]
  dsimp only
  rw [byteCount_append (pre ++ c :: text)]
  exact Nat.le_add_right _ _

/-- A part of the source that ends behind the beginning of a span goes on as the span does. -/
theorem exists_cons_of_lt {pre text rest before after : List Char} {c : Char}
    (hsource : source = pre ++ (c :: text ++ rest)) (hsource' : source = before ++ after)
    (h : byteCount pre < byteCount before) : ∃ text', before = pre ++ c :: text' := by
  have hpre : pre <+: source := ⟨_, hsource.symm⟩
  have hbefore : before <+: source := ⟨_, hsource'.symm⟩
  rcases List.prefix_or_prefix_of_prefix hpre hbefore with ⟨more, rfl⟩ | ⟨more, rfl⟩
  · cases more with
    | nil =>
      rw [List.append_nil] at h
      omega
    | cons d more =>
      rw [hsource, List.append_assoc] at hsource'
      obtain ⟨rfl, -⟩ := List.cons.inj (List.append_cancel_left hsource')
      exact ⟨more, rfl⟩
  · rw [byteCount_append] at h
    omega

/-- Two spans make another one, from the beginning of the first to the end of the second. -/
theorem join (hs : s.Covers source) (ht : t.Covers source)
    (h : s.start.offset < t.stop.offset) : (s.join t).Covers source := by
  obtain ⟨pre, c, text, rest, hsource, hvisible, rfl⟩ := hs
  obtain ⟨pre', c', text', rest', hsource', -, rfl⟩ := ht
  rw [Span.ofText_start_offset, Span.ofText_stop_offset] at h
  rw [← List.append_assoc] at hsource'
  obtain ⟨more, hmore⟩ := exists_cons_of_lt hsource hsource' h
  refine ⟨pre, c, more, rest', ?_, hvisible, ?_⟩
  · rw [hsource', hmore, List.append_assoc]
  · rw [Span.join, Span.ofText, Span.ofText, Span.ofText, hmore]

end Span.Covers

/-! ## What scanning notes down -/

/-- A blank is passed over. -/
theorem Lexeme.found_of_isBlank {c : Char} (h : isBlank c = true) (cs : List Char) :
    (Lexeme.first c cs).found = .nothing := by
  have hfirst : Rule.first? (c :: cs) =
      some (.separator, 1 + Pattern.runLength isBlank cs) := by
    simp [Rule.first?, Rule.table, Pattern.width?, h]
  rw [Lexeme.first, hfirst]
  rfl

/-- A stretch at the start of a text that does not begin with a blank. -/
theorem Span.covers_take (pre cs : List Char) {c : Char} (h : isBlank c = false) {width : Nat}
    (hwidth : 0 < width) :
    (⟨Position.start.advance pre, (Position.start.advance pre).advance ((c :: cs).take width)⟩ :
      Span).Covers (pre ++ c :: cs) := by
  obtain ⟨n, rfl⟩ : ∃ n, width = n + 1 := ⟨width - 1, by omega⟩
  refine ⟨pre, c, cs.take n, cs.drop n, ?_, h, ?_⟩
  · rw [List.cons_append, List.take_append_drop]
  · rw [Span.ofText, Position.advance_append, List.take_succ_cons]

/-- One step of a scan notes down a span of visible text, and an error of the first stage. -/
theorem covers_of_ofLexeme? {pre text rest cs : List Char} {c : Char} {lexeme : Lexeme}
    {item : Item} (hvisible : isBlank c = false) (hne : text ≠ [])
    (hwidth : text.length = lexeme.width) (htakes : Takes text rest lexeme.found)
    (h : Item.ofLexeme? (Position.start.advance pre) (c :: cs) lexeme = some item) :
    item.span.Covers (pre ++ c :: cs) ∧
      ∀ e ∈ item.error?, e.At .compile (Span.Covers (pre ++ c :: cs)) := by
  have hpos : 0 < text.length := List.length_pos_iff.mpr hne
  obtain ⟨width, found⟩ := lexeme
  cases htakes with
  | nothing => cases h
  | token =>
    cases h
    exact ⟨Span.covers_take pre cs hvisible (hwidth ▸ hpos), nofun⟩
  | unrecognised =>
    cases h
    have hcovers := Span.covers_take pre cs hvisible Nat.one_pos
    refine ⟨hcovers, ?_⟩
    rintro e ⟨⟩
    exact ⟨rfl, hcovers, nofun⟩
  | unclosedString =>
    cases h
    have hcovers := Span.covers_take pre cs hvisible hpos
    refine ⟨hcovers, ?_⟩
    rintro e ⟨⟩
    exact ⟨rfl, hcovers, nofun⟩
  | unclosedComment =>
    cases h
    have hcovers := Span.covers_take pre cs hvisible Nat.two_pos
    refine ⟨hcovers, ?_⟩
    rintro e ⟨⟩
    exact ⟨rfl, hcovers, nofun⟩

/-- **Scanning notes down spans of visible text**, and errors of the first stage. -/
theorem covers_of_mem_scan : ∀ (pre cs : List Char),
    ∀ item ∈ scan (Position.start.advance pre) cs,
      item.span.Covers (pre ++ cs) ∧ ∀ e ∈ item.error?, e.At .compile (Span.Covers (pre ++ cs))
  | pre, [] => by
    rw [scan]
    exact List.forall_mem_nil _
  | pre, c :: cs => by
    obtain ⟨text, rest, hsplit, hne, hwidth, htakes⟩ := Lexeme.takes_first c cs
    have hshorter : rest.length < (c :: cs).length := by
      rw [hsplit, List.length_append]
      have := List.length_pos_iff.mpr hne
      omega
    have hrest := covers_of_mem_scan (pre ++ text) rest
    rw [Position.advance_append, List.append_assoc, ← hsplit] at hrest
    rw [scan_append hsplit hne hwidth]
    intro item hitem
    rcases List.mem_append.mp hitem with hitem | hitem
    · have hfound := Option.mem_toList.mp hitem
      cases hvisible : isBlank c with
      | true =>
        rw [Item.ofLexeme?, Lexeme.found_of_isBlank hvisible] at hfound
        cases hfound
      | false => exact covers_of_ofLexeme? hvisible hne hwidth htakes hfound
    · exact hrest item hitem
termination_by _ cs => cs.length
decreasing_by exact hshorter

end TypedImp
