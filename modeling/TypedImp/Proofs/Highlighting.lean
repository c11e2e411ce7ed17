import TypedImp.Proofs.Places.Lines
import TypedImp.Proofs.StagesApart

/-!
# Diagnostics mark the right text

An error has a span of the source, and the diagnostic made from it shows one line with a mark under
a part of it.  Here the mark is compared with the source: what is marked is the text of the span, as
far as it stands on the line that is shown.

## What might go wrong

A line is shown without its line break, and a carriage return before it goes as well, so a mark may
have to end before its span does.  It never ends before it begins: a span begins with a character
that is not a blank, and this character is shown.  The only empty span is that of the end of the
source, where one column is marked although nothing stands there.  The span that means *no place* is
the empty one at the start of the source; since an empty source has no errors, it is never mistaken
for the end.

* `Diagnostic.Marks`: a diagnostic shows the line of a span and marks its text.
* `marks_of_covers`, `marks_of_atEnd`: the two kinds of spans.
* `diagnostics_mark_their_spans`: **every diagnostic of every source**.
-/

namespace TypedImp

/-- A diagnostic shows the line on which a span of the source begins and marks the text of the span,
up to the end of what is shown of the line. -/
structure Diagnostic.Marks (source : List Char) (s : Span) (d : Diagnostic) : Prop where
  /-- The diagnostic stands where the span begins. -/
  begins : s.start.Right source ∧ d.line = s.start.line ∧ d.column = s.start.column
  numbered : 1 ≤ d.line ∧ d.line ≤ source.count '\n' + 1
  shows : ∃ line, IsLine source d.line line ∧ DropsReturn line d.snippet.toList
  marked : s.isEmpty = false ∧ 1 ≤ d.length ∧ d.column + d.length ≤ d.snippet.length ∧
      (d.snippet.toList.drop d.column).take d.length =
        (slice source s.start.offset s.stop.offset).take (d.snippet.length - d.column) ∨
    s = .atEnd source ∧ s.isEmpty = true ∧ d.length = 1

/-! ## Spans with a place -/

/-- A span of text has a place. -/
theorem Span.Covers.isUnlocated {s : Span} {cs : List Char} (h : s.Covers cs) :
    s.isUnlocated = false := by
  have hlt := h.start_lt_stop
  rw [Span.isUnlocated, decide_eq_false_iff_not]
  rintro rfl
  exact absurd hlt (by decide)

/-- The end of a source that is not empty has a place. -/
theorem Span.isUnlocated_atEnd {cs : List Char} (h : cs ≠ []) :
    (Span.atEnd cs).isUnlocated = false := by
  have hpos := byteCount_pos h
  rw [Span.isUnlocated, decide_eq_false_iff_not, Span.atEnd, Span.unlocated, Position.advance_start]
  intro heq
  have hoffset := congrArg (fun s : Span => s.start.offset) heq
  dsimp only [Position.start] at hoffset
  omega

/-- Two beginnings of one text agree as far as both go. -/
theorem take_min_of_prefix {cs ds text : List Char} (hcs : cs <+: text) (hds : ds <+: text) :
    cs.take (min ds.length cs.length) = ds.take cs.length := by
  rw [List.prefix_iff_eq_take.mp hcs, List.prefix_iff_eq_take.mp hds]
  simp only [List.take_take, List.length_take]
  congr 1
  omega

namespace Diagnostic

variable {e : Error} {file source : String}

/-- An error without a place. -/
theorem ofError_of_isUnlocated (h : e.span.isUnlocated = true) :
    ofError e file source = ⟨file, 0, 0, 0, "", messageOf e.cause, e.stage⟩ := by
  rw [ofError]
  exact if_pos h

/-- The line of an error that has a place in the source. -/
theorem ofError_of_line {line : List Char} (h : e.span.isUnlocated = false)
    (hline : IsLine source.toList e.span.start.line line) :
    ofError e file source =
      ⟨file, e.span.start.line, e.span.start.column,
        markLength (String.ofList (Line.trimReturn line)) e.span,
        String.ofList (Line.trimReturn line), messageOf e.cause, e.stage⟩ := by
  rw [ofError]
  dsimp only
  rw [if_neg (by rw [h]; decide), hline.numbered?_eq]
  rfl

/-! ## Spans of visible text -/

/-- A span of text is marked as far as the line shows it. -/
theorem markLength_ofText {pre text shown rest : List Char} {c : Char} (hc : c ≠ '\n')
    (hshown : shown <+: text ++ rest) (hline : '\n' ∉ shown) :
    markLength (String.ofList (lineBefore pre ++ c :: shown)) (.ofText pre (c :: text)) =
      min (text.length + 1) (shown.length + 1) := by
  have hremaining : (String.ofList (lineBefore pre ++ c :: shown)).length -
      (Position.start.advance pre).column = shown.length + 1 := by
    rw [String.length_ofList, List.length_append, length_lineBefore, List.length_cons]
    omega
  rw [markLength, Span.ofText]
  dsimp only
  rw [hremaining]
  by_cases hbroken : '\n' ∈ text
  · -- The line ends within the text.
    have hshorter : shown.length ≤ text.length := by
      by_contra hlonger
      have hbegins := List.prefix_of_prefix_length_le (List.prefix_append text rest) hshown
        (by omega)
      exact hline (hbegins.subset hbroken)
    have hlater := Position.line_lt_of_broken (List.mem_cons_of_mem c hbroken) pre
    rw [if_neg hlater.ne']
    omega
  · have hunbroken : '\n' ∉ c :: text := by
      rw [List.mem_cons, not_or]
      exact ⟨Ne.symm hc, hbroken⟩
    obtain ⟨hsame, hcolumn⟩ := Position.advance_of_unbroken hunbroken (Position.start.advance pre)
    rw [Position.advance_append, if_pos hsame, hcolumn, List.length_cons]
    omega

/-- **Spans of visible text are marked.** -/
theorem marks_of_covers (h : e.span.Covers source.toList) :
    (ofError e file source).Marks source.toList e.span := by
  have hlt := h.start_lt_stop
  have hlocated := h.isUnlocated
  obtain ⟨pre, c, text, rest, hsource, hvisible, hspan⟩ := h
  have hc : c ≠ '\n' := by
    rintro rfl
    exact absurd hvisible (by decide)
  have hline : IsLine source.toList e.span.start.line
      (lineBefore pre ++ c :: (text ++ rest).takeWhile (· ≠ '\n')) := by
    have haround := isLine_around pre (c :: text ++ rest)
    rw [← hsource, List.cons_append, List.takeWhile_cons_of_pos (by simpa using hc)] at haround
    rwa [hspan]
  obtain ⟨shown, htrim, hshown⟩ := Line.trimReturn_append (lineBefore pre)
    ((text ++ rest).takeWhile (· ≠ '\n')) hvisible
  have hbegins : shown <+: text ++ rest := hshown.trans (List.takeWhile_prefix _)
  have hunbroken : '\n' ∉ shown := fun hmem => by
    simpa using List.mem_takeWhile_imp (hshown.subset hmem)
  have hreturn := dropsReturn_trimReturn
    (lineBefore pre ++ c :: (text ++ rest).takeWhile (· ≠ '\n'))
  have hright : e.span.start.Right source.toList := by
    rw [hspan, hsource]
    exact Position.right_advance pre (c :: text ++ rest)
  have htext : slice source.toList e.span.start.offset e.span.stop.offset = c :: text := by
    rw [hspan, hsource, Span.ofText_start_offset, Span.ofText_stop_offset]
    exact slice_append pre (c :: text) rest
  have hcolumn : e.span.start.column = (lineBefore pre).length := by
    rw [hspan, length_lineBefore, Span.ofText]
  rw [ofError_of_line hlocated hline, htrim]
  rw [htrim] at hreturn
  have hlength : markLength (String.ofList (lineBefore pre ++ c :: shown)) e.span =
      min (c :: text).length (c :: shown).length := by
    rw [hspan, markLength_ofText hc hbegins hunbroken, List.length_cons, List.length_cons]
  have hshownAll : c :: shown <+: c :: (text ++ rest) :=
    List.cons_prefix_cons.mpr ⟨rfl, hbegins⟩
  have htextAll : c :: text <+: c :: (text ++ rest) :=
    List.cons_prefix_cons.mpr ⟨rfl, List.prefix_append text rest⟩
  refine ⟨⟨hright, rfl, rfl⟩, hline.number_le, ⟨_, hline, ?_⟩, .inl ?_⟩
  · rwa [String.toList_ofList]
  · dsimp only
    rw [hlength, htext, hcolumn, String.toList_ofList, String.length_ofList, List.length_append,
      Nat.add_sub_cancel_left, List.drop_left]
    refine ⟨?_, ?_, ?_, take_min_of_prefix hshownAll htextAll⟩
    · rw [Span.isEmpty, Span.length, decide_eq_false_iff_not]
      omega
    · rw [List.length_cons, List.length_cons]
      omega
    · omega

/-! ## The end of the source -/

/-- **One column is marked at the end of the source.** -/
theorem marks_of_atEnd (h : e.span = .atEnd source.toList) (hne : source.toList ≠ []) :
    (ofError e file source).Marks source.toList e.span := by
  have hlocated : e.span.isUnlocated = false := by
    rw [h]
    exact Span.isUnlocated_atEnd hne
  have hline : IsLine source.toList e.span.start.line
      (lineBefore source.toList ++ ([] : List Char).takeWhile (· ≠ '\n')) := by
    have haround := isLine_around source.toList []
    rw [List.append_nil] at haround
    rwa [h]
  have hright : e.span.start.Right source.toList := by
    have hadvance := Position.right_advance source.toList []
    rw [List.append_nil] at hadvance
    rwa [h]
  rw [ofError_of_line hlocated hline]
  refine ⟨⟨hright, rfl, rfl⟩, hline.number_le, ⟨_, hline, ?_⟩, .inr ⟨h, ?_, ?_⟩⟩
  · rw [String.toList_ofList]
    exact dropsReturn_trimReturn _
  · rw [h, Span.atEnd, Span.isEmpty, Span.length]
    simp
  · rw [h, Span.atEnd, markLength]
    simp

end Diagnostic

/-! ## All diagnostics -/

/-- The mark that belongs under a line: the tabs before it are kept and all else is blank. -/
def Diagnostic.caretLine (d : Diagnostic) : List Char :=
  List.replicate 4 ' ' ++
    ((d.snippet.toList.take d.column).map fun c => if c = '\t' then '\t' else ' ') ++
    '^' :: List.replicate (d.length - 1) '~'

/-- A diagnostic shows an error: it has a place unless the error is that of a function that does not
exist, and then it marks the place and draws the mark under its line. -/
structure Diagnostic.Shows (source : List Char) (e : Error) (d : Diagnostic) : Prop where
  isLocated : d.isLocated = false ↔ ∃ name, e.cause = .functionNotDefined name
  marks : d.isLocated = true → d.Marks source e.span
  rendered : d.isLocated = true → d.render.toList =
    (s!"{d.file}:{d.line}:{d.column + 1}: {d.message}\n    {d.snippet}\n").toList ++ d.caretLine

/-- The errors with which a source does not compile, or does not run. -/
inductive Raises (fuel : Nat) (source name : String) (arguments : List Value) : List Error → Prop
  | analysis {errors : List Error} (found : analyze source = .error errors) :
    Raises fuel source name arguments errors
  | run {c : Checked} {e : Error} {m : Machine} (compiled : analyze source = .ok c)
    (ended : Machine.initial.run c.program fuel name arguments = (.rejected e, m) ∨
      Machine.initial.run c.program fuel name arguments = (.faulted e, m)) :
    Raises fuel source name arguments [e]

namespace Diagnostic

variable {e : Error} {file source : String}

theorem render_of_isLocated {d : Diagnostic} (h : d.isLocated = true) : d.render.toList =
    (s!"{d.file}:{d.line}:{d.column + 1}: {d.message}\n    {d.snippet}\n").toList ++
      d.caretLine := by
  have hmark : d.markLine.toList = d.caretLine := by
    simp [markLine, padding, caretLine]
  rw [← hmark, ← String.toList_append, render, if_pos h]
  simp [String.append_assoc, toString]

/-- An error at a span of the source is shown. -/
theorem shows_of_at {stage : Stage} (h : e.At stage (Span.Points source.toList))
    (hne : source.toList ≠ []) : (ofError e file source).Shows source.toList e := by
  have hmarks : (ofError e file source).Marks source.toList e.span := by
    rcases h.span with hcovers | hend
    · exact marks_of_covers hcovers
    · exact marks_of_atEnd hend hne
  have hlocated : (ofError e file source).isLocated = true := by
    have := hmarks.numbered
    rw [isLocated, decide_eq_true_eq]
    omega
  refine ⟨?_, fun _ => hmarks, render_of_isLocated⟩
  rw [hlocated]
  exact ⟨nofun, fun ⟨name, hname⟩ => absurd hname (h.inside name)⟩

/-- So is an error of a function that does not exist. -/
theorem shows_functionNotDefined (name : String) :
    (ofError ⟨.functionNotDefined name, .unlocated⟩ file source).Shows source.toList
      ⟨.functionNotDefined name, .unlocated⟩ := by
  rw [ofError_of_isUnlocated rfl]
  exact ⟨⟨fun _ => ⟨name, rfl⟩, fun _ => rfl⟩, nofun, render_of_isLocated⟩

end Diagnostic

section

variable {source file : String}

/-- The errors that analysis finds are shown. -/
theorem shows_of_analyze {errors : List Error} (h : analyze source = .error errors) :
    ∀ e ∈ errors, (Diagnostic.ofError e file source).Shows source.toList e := by
  have hplaces := places_of_analyze source
  rw [h] at hplaces
  exact fun e he => Diagnostic.shows_of_at (hplaces.2.2 e he) hplaces.2.1

/-- An error at a span of the program is shown. -/
theorem shows_of_covered {e : Error} {stage : Stage} (h : e.At stage (Span.Covers source.toList)) :
    (Diagnostic.ofError e file source).Shows source.toList e := by
  have hpoints : e.At stage (Span.Points source.toList) := ⟨h.stage, .inl h.span, h.inside⟩
  refine Diagnostic.shows_of_at hpoints fun hempty => ?_
  obtain ⟨pre, c, text, rest, hsource, -⟩ := h.span
  rw [hempty] at hsource
  simp at hsource

/-- The error with which a run ends is shown. -/
theorem shows_of_run {c : Checked} {fuel : Nat} {name : String} {arguments : List Value} {e : Error}
    {m : Machine} (h : analyze source = .ok c)
    (hrun : Machine.initial.run c.program fuel name arguments = (.rejected e, m) ∨
      Machine.initial.run c.program fuel name arguments = (.faulted e, m)) :
    (Diagnostic.ofError e file source).Shows source.toList e := by
  have hspans := places_of_analyze source
  rw [h] at hspans
  cases hentry : entry c.program name arguments with
  | error e' =>
    obtain rfl : e = e' := by
      rw [Machine.run, hentry] at hrun
      rcases hrun with hrun | hrun <;> cases hrun
      rfl
    rcases places_of_entry hspans hentry with rfl | hat
    · exact Diagnostic.shows_functionNotDefined name
    · exact shows_of_covered hat
  | ok f =>
    rcases hrun with hrun | hrun
    · exact absurd (congrArg Prod.fst hrun) (run_ne_rejected hentry .initial e)
    · obtain ⟨f', hentry', hexecute⟩ := of_run_eq_faulted hrun
      have hf' := hspans.functions f' (of_entry_eq_ok hentry').2.1
      exact shows_of_covered (at_of_execute hspans hf' hexecute)

/-- A source that fails to run has raised the errors that are reported. -/
theorem raises_of_runSource {fuel : Nat} {name : String} {arguments : List Value} {report : Report}
    {output : Array String}
    (h : runSource fuel source file name arguments = (.failed report, output)) :
    ∃ errors, Raises fuel source name arguments errors ∧
      report = Report.ofErrors errors file source := by
  unfold runSource compile at h
  cases hanalyze : analyze source with
  | error errors =>
    rw [hanalyze] at h
    cases h
    exact ⟨errors, .analysis hanalyze, rfl⟩
  | ok c =>
    rw [hanalyze] at h
    dsimp only at h
    cases hrun : Machine.initial.run c.program fuel name arguments with
    | mk ending m =>
      rw [hrun] at h
      cases ending with
      | returned value => cases h
      | exhausted => cases h
      | rejected e =>
        cases h
        exact ⟨[e], .run hanalyze (.inl hrun), rfl⟩
      | faulted e =>
        cases h
        exact ⟨[e], .run hanalyze (.inr hrun), rfl⟩

/-- All errors that a source raises are shown. -/
theorem Raises.shows {fuel : Nat} {name : String} {arguments : List Value} {errors : List Error}
    (h : Raises fuel source name arguments errors) :
    ∀ e ∈ errors, (Diagnostic.ofError e file source).Shows source.toList e := by
  cases h with
  | analysis found => exact shows_of_analyze found
  | run compiled ended => exact List.forall_mem_singleton.mpr (shows_of_run compiled ended)

end

/-- **Diagnostics mark the right text.**  Every diagnostic with which a source fails to compile or
to run shows its error.  It has no place if and only if the error is that of a function that does
not exist; otherwise it shows the line on which the span of the error begins, it marks the text of
the span as far as the line shows it, or one column at the end of the source, and it draws the mark
under the line. -/
theorem diagnostics_mark_their_spans (source file : String) :
    (∀ report, compile source file = .error report →
      ∃ errors, analyze source = .error errors ∧ report = Report.ofErrors errors file source ∧
        ∀ e ∈ errors, (Diagnostic.ofError e file source).Shows source.toList e) ∧
    (∀ fuel name arguments report output,
      runSource fuel source file name arguments = (.failed report, output) →
      ∃ errors, Raises fuel source name arguments errors ∧
        report = Report.ofErrors errors file source ∧
        ∀ e ∈ errors, (Diagnostic.ofError e file source).Shows source.toList e) := by
  constructor
  · intro report hcompile
    obtain ⟨errors, hanalyze, hreport, -⟩ := compile_eq_error hcompile
    exact ⟨errors, hanalyze, hreport, shows_of_analyze hanalyze⟩
  · intro fuel name arguments report output hrun
    obtain ⟨errors, hraises, hreport⟩ := raises_of_runSource hrun
    exact ⟨errors, hraises, hreport, hraises.shows⟩

end TypedImp
