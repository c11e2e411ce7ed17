import TypedImp.Proofs.Tiling
import TypedImp.Source.Line

/-!
# The lines of a text

A line is what stands between two line breaks.  Looking a line up by its number cuts the whole text
at its line breaks and counts the pieces; here it is shown that this finds the line which one finds
by going to the left and to the right from any place in it.

* `IsLine`: the lines of a text and their numbers.
* `IsLine.getElem?_split`: cutting a text at its line breaks gives its lines.
* `isLine_around`: the line around a place.
* `DropsReturn`, `IsLine.numbered?_eq`: a line that is looked up, without its carriage return.
-/

namespace TypedImp

/-- A line of a text: what stands between two line breaks, or between a line break and one end of
the text.  Its number is one more than the line breaks before it. -/
structure IsLine (source : List Char) (number : Nat) (line : List Char) : Prop where
  unbroken : '\n' ∉ line
  between : ∃ before after, source = before ++ (line ++ after) ∧ number = before.count '\n' + 1 ∧
    (before = [] ∨ before.getLast? = some '\n') ∧ (after = [] ∨ after.head? = some '\n')

/-- A text has one line more than it has line breaks. -/
theorem IsLine.number_le {source line : List Char} {number : Nat}
    (h : IsLine source number line) : 1 ≤ number ∧ number ≤ source.count '\n' + 1 := by
  obtain ⟨before, after, rfl, rfl, -, -⟩ := h.between
  rw [List.count_append]
  omega

namespace Text

/-- Up to the first separator, a text is its first piece. -/
theorem getElem?_split_zero {sep : Char} {line after : List Char} (hline : sep ∉ line)
    (hafter : after = [] ∨ after.head? = some sep) :
    (split sep (line ++ after))[0]? = some line := by
  induction line with
  | nil =>
    cases after with
    | nil => rfl
    | cons c cs =>
      have hc : c = sep := by simpa using hafter
      rw [List.nil_append, split, if_pos hc]
      rfl
  | cons c line ih =>
    rw [List.mem_cons, not_or] at hline
    have hfirst := ih hline.2
    rw [List.cons_append, split, if_neg (Ne.symm hline.1)]
    cases hpieces : split sep (line ++ after) with
    | nil => exact absurd hpieces (split_ne_nil sep _)
    | cons piece pieces =>
      rw [hpieces, List.getElem?_cons_zero, Option.some.injEq] at hfirst
      rw [hfirst]
      rfl

/-- Behind a separator the pieces are those of the rest. -/
theorem getElem?_split_append (sep : Char) (before rest : List Char) (n : Nat) :
    (split sep (before ++ sep :: rest))[before.count sep + 1 + n]? = (split sep rest)[n]? := by
  induction before with
  | nil =>
    rw [List.nil_append, split, if_pos rfl, List.count_nil, Nat.zero_add, Nat.add_comm,
      List.getElem?_cons_succ]
  | cons c before ih =>
    rw [List.cons_append, split]
    by_cases hc : c = sep
    · have hcount : (c :: before).count sep + 1 + n = before.count sep + 1 + n + 1 := by
        rw [hc, List.count_cons_self]
        omega
      rw [if_pos hc, hcount, List.getElem?_cons_succ, ih]
    · rw [if_neg hc, List.count_cons_of_ne hc]
      have hindex : before.count sep + 1 + n = before.count sep + n + 1 := by omega
      rw [← ih, hindex]
      -- Only the first piece becomes longer, and this is a later one.
      cases hpieces : split sep (before ++ sep :: rest) with
      | nil => exact absurd hpieces (split_ne_nil sep _)
      | cons piece pieces => rfl

end Text

/-- **Cutting a text at its line breaks gives its lines**, in the order of their numbers. -/
theorem IsLine.getElem?_split {source line : List Char} {number : Nat}
    (h : IsLine source number line) : (Text.split '\n' source)[number - 1]? = some line := by
  obtain ⟨before, after, rfl, rfl, hbefore, hafter⟩ := h.between
  rcases hbefore with rfl | hlast
  · exact Text.getElem?_split_zero h.unbroken hafter
  · obtain ⟨earlier, rfl⟩ := List.getLast?_eq_some_iff.mp hlast
    have hnumber : (earlier ++ ['\n']).count '\n' + 1 - 1 = earlier.count '\n' + 1 + 0 := by
      rw [List.count_append, List.count_singleton_self]
      rfl
    rw [hnumber, List.append_assoc, List.singleton_append, Text.getElem?_split_append]
    exact Text.getElem?_split_zero h.unbroken hafter

/-! ## The line around a place -/

/-- The part of the last line of a text that is already there. -/
def lineBefore (pre : List Char) : List Char := (pre.reverse.takeWhile (· ≠ '\n')).reverse

@[simp] theorem length_lineBefore (pre : List Char) :
    (lineBefore pre).length = (Position.start.advance pre).column := by
  rw [lineBefore, List.length_reverse, Position.advance_start]

/-- **The line around a place** goes from the last line break before to the next one behind. -/
theorem isLine_around (pre rest : List Char) :
    IsLine (pre ++ rest) (Position.start.advance pre).line
      (lineBefore pre ++ rest.takeWhile (· ≠ '\n')) := by
  have hline : ∀ {cs : List Char}, '\n' ∉ cs.takeWhile (· ≠ '\n') := by
    intro cs hmem
    simpa using List.mem_takeWhile_imp hmem
  have hbreak : ∀ cs : List Char, cs.dropWhile (· ≠ '\n') = [] ∨
      (cs.dropWhile (· ≠ '\n')).head? = some '\n' := by
    intro cs
    have hnot := List.head?_dropWhile_not (· ≠ '\n') cs
    cases hrest : cs.dropWhile (· ≠ '\n') with
    | nil => exact .inl rfl
    | cons c rest =>
      rw [hrest] at hnot
      exact .inr (by simpa using hnot)
  have hsplit : pre = (pre.reverse.dropWhile (· ≠ '\n')).reverse ++ lineBefore pre := by
    rw [lineBefore, ← List.reverse_append, List.takeWhile_append_dropWhile, List.reverse_reverse]
  refine ⟨?_, (pre.reverse.dropWhile (· ≠ '\n')).reverse, rest.dropWhile (· ≠ '\n'), ?_, ?_, ?_, ?_⟩
  · rw [List.mem_append, not_or]
    exact ⟨fun h => hline (List.mem_reverse.mp h), hline⟩
  · rw [List.append_assoc, List.takeWhile_append_dropWhile, ← List.append_assoc, ← hsplit]
  · have hcount : (lineBefore pre).count '\n' = 0 :=
      List.count_eq_zero.mpr fun h => hline (List.mem_reverse.mp h)
    rw [Position.advance_start, Nat.add_comm]
    conv_lhs => rw [hsplit, List.count_append, hcount]
  · rw [List.reverse_eq_nil_iff, List.getLast?_reverse]
    exact hbreak pre.reverse
  · exact hbreak rest

/-- Text without line breaks moves a place along its line. -/
theorem Position.advance_of_unbroken {text : List Char} (h : '\n' ∉ text) (p : Position) :
    (p.advance text).line = p.line ∧ (p.advance text).column = p.column + text.length := by
  induction text generalizing p with
  | nil => exact ⟨rfl, rfl⟩
  | cons c text ih =>
    rw [List.mem_cons, not_or] at h
    have hstep : p.step c = ⟨p.offset + c.utf8Size, p.line, p.column + 1⟩ :=
      if_neg (Ne.symm h.1)
    obtain ⟨hline, hcolumn⟩ := ih h.2 (p.step c)
    rw [Position.advance_cons, hline, hcolumn, hstep, List.length_cons]
    exact ⟨rfl, by dsimp only; omega⟩

/-- Text with a line break moves a place to a later line. -/
theorem Position.line_lt_of_broken {text : List Char} (h : '\n' ∈ text) (pre : List Char) :
    (Position.start.advance pre).line < (Position.start.advance (pre ++ text)).line := by
  have hpos := List.count_pos_iff.mpr h
  simp only [Position.advance_start, List.count_append]
  omega

/-! ## Carriage returns -/

/-- A line without the carriage return that may end it. -/
def DropsReturn (line snippet : List Char) : Prop :=
  line = snippet ++ ['\r'] ∨ line = snippet ∧ line.getLast? ≠ some '\r'

theorem dropsReturn_trimReturn (line : List Char) : DropsReturn line (Line.trimReturn line) := by
  unfold Line.trimReturn
  split
  · next h =>
    obtain ⟨init, rfl⟩ := List.getLast?_eq_some_iff.mp h
    rw [List.dropLast_concat]
    exact .inl rfl
  · next h => exact .inr ⟨rfl, h⟩

/-- What is shown of a line begins with its characters up to any that is not a blank. -/
theorem Line.trimReturn_append (before after : List Char) {c : Char} (h : isBlank c = false) :
    ∃ after', Line.trimReturn (before ++ c :: after) = before ++ c :: after' ∧
      after' <+: after := by
  unfold Line.trimReturn
  split
  · next hlast =>
    cases hafter : after using List.reverseRecOn with
    | nil =>
      -- The carriage return would be the visible character.
      rw [hafter, List.getLast?_concat, Option.some.injEq] at hlast
      rw [hlast] at h
      exact absurd h (by decide)
    | append_singleton init d _ =>
      refine ⟨init, ?_, List.prefix_append init [d]⟩
      rw [← List.cons_append, ← List.append_assoc, List.dropLast_concat]
  · exact ⟨after, rfl, List.prefix_rfl⟩

/-- A line is looked up by its number. -/
theorem IsLine.numbered?_eq {source : String} {line : List Char} {number : Nat}
    (h : IsLine source.toList number line) :
    Line.numbered? source number = some (String.ofList (Line.trimReturn line)) := by
  obtain ⟨n, rfl⟩ : ∃ n, number = n + 1 := ⟨number - 1, by have := h.number_le; omega⟩
  rw [Line.numbered?, show n = n + 1 - 1 from rfl, h.getElem?_split]
  rfl

end TypedImp
