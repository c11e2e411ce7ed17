import Mathlib.Data.List.Induction
import TypedImp.Proofs.Token.Scanning
import TypedImp.Source.Reader

/-!
# Tokens tile the source

Tokens and errors carry places in the source, counted in bytes, lines and characters.  Here these
places are tied back to the text: the bytes between the two places of a token spell the token, what
stands before, between and behind the tokens is nothing but blanks and comments, and lines and
columns are what one counts in the text before a place.

## How places are compared with the text

A place is looked up by its offset alone: `textBefore` are the characters that end within that many
bytes, and `slice` is what lies between two offsets.  Lines and columns are then counted in the text
before, so a place that was moved wrongly is noticed even when it was moved consistently.

* `Position.Right`: offset, line and column belong together.
* `Span.Precedes`: one stretch ends before the next one begins.
* `Tiles`: a list of tokens covers the source up to blanks and comments.
* `tokenize_tiles_source`: **the result of scanning any source**.
-/

namespace TypedImp

/-! ## Text by offsets -/

/-- Number of bytes of a text. -/
def byteCount : List Char → Nat
  | [] => 0
  | c :: cs => c.utf8Size + byteCount cs

theorem byteCount_append (cs ds : List Char) :
    byteCount (cs ++ ds) = byteCount cs + byteCount ds := by
  induction cs with
  | nil => exact (Nat.zero_add _).symm
  | cons c cs ih => rw [List.cons_append, byteCount, byteCount, ih, Nat.add_assoc]

theorem byteCount_pos {cs : List Char} (h : cs ≠ []) : 0 < byteCount cs := by
  cases cs with
  | nil => exact absurd rfl h
  | cons c cs =>
    have := Char.utf8Size_pos c
    rw [byteCount]
    omega

theorem byteCount_toList (s : String) : byteCount s.toList = s.utf8ByteSize := by
  have hlist : ∀ cs : List Char, byteCount cs = (String.ofList cs).utf8ByteSize := by
    intro cs
    induction cs with
    | nil => rfl
    | cons c cs ih =>
      rw [← List.singleton_append, byteCount_append, String.ofList_append,
        String.utf8ByteSize_append, ih, ← String.singleton_eq_ofList, String.utf8ByteSize_singleton]
      rfl
  rw [hlist, String.ofList_toList]

/-- The part of the source before an offset. -/
def textBefore (source : List Char) (offset : Nat) : List Char := Reader.withinBytes offset source

/-- The part of the source between two offsets. -/
def slice (source : List Char) (start stop : Nat) : List Char :=
  (textBefore source stop).drop (textBefore source start).length

theorem textBefore_append (pre rest : List Char) :
    textBefore (pre ++ rest) (byteCount pre) = pre := by
  induction pre with
  | nil =>
    cases rest with
    | nil => rfl
    | cons c cs =>
      have hpos : c.utf8Size ≠ 0 := (Char.utf8Size_pos c).ne'
      simp [textBefore, byteCount, Reader.withinBytes, hpos]
  | cons c pre ih =>
    have hsum : byteCount (c :: pre) = c.utf8Size + byteCount pre := by simp [byteCount]
    rw [textBefore, List.cons_append, Reader.withinBytes, hsum, if_pos (Nat.le_add_right _ _),
      Nat.add_sub_cancel_left]
    exact congrArg (c :: ·) ih

theorem slice_append (pre text rest : List Char) :
    slice (pre ++ (text ++ rest)) (byteCount pre) (byteCount (pre ++ text)) = text := by
  have hstop : textBefore (pre ++ (text ++ rest)) (byteCount (pre ++ text)) = pre ++ text := by
    rw [← List.append_assoc]
    exact textBefore_append (pre ++ text) rest
  rw [slice, hstop, textBefore_append, List.drop_left]

/-! ## Places -/

/-- The three counts of a place agree: the offset lies between two characters of the source, the
line is one more than the line breaks before it, and the column counts the characters since the last
of them. -/
structure Position.Right (source : List Char) (p : Position) : Prop where
  offset : byteCount (textBefore source p.offset) = p.offset
  line : p.line = 1 + (textBefore source p.offset).count '\n'
  column : p.column = ((textBefore source p.offset).reverse.takeWhile (· ≠ '\n')).length

/-- Reading a text from the start counts it. -/
theorem Position.advance_start (cs : List Char) :
    Position.start.advance cs =
      ⟨byteCount cs, 1 + cs.count '\n', (cs.reverse.takeWhile (· ≠ '\n')).length⟩ := by
  induction cs using List.reverseRecOn with
  | nil => rfl
  | append_singleton cs c ih =>
    rw [Position.advance_append, ih, Position.advance_cons, Position.advance_nil, Position.step,
      byteCount_append]
    by_cases hc : c = '\n'
    · subst hc
      simp [byteCount, Nat.add_assoc]
    · simp [byteCount, hc]

theorem Position.right_advance (pre rest : List Char) :
    (Position.start.advance pre).Right (pre ++ rest) := by
  rw [Position.advance_start]
  constructor <;> simp only [textBefore_append]

/-- Both ends of a stretch are places of the source. -/
def Span.Right (source : List Char) (s : Span) : Prop :=
  s.start.Right source ∧ s.stop.Right source

/-- One stretch begins and ends before another one begins. -/
def Span.Precedes (s t : Span) : Prop :=
  s.start.offset < t.start.offset ∧ s.stop.offset ≤ t.start.offset

theorem Span.right_ofText (pre text rest : List Char) :
    (Span.ofText pre text).Right (pre ++ (text ++ rest)) := by
  refine ⟨Position.right_advance pre (text ++ rest), ?_⟩
  rw [← List.append_assoc]
  exact Position.right_advance (pre ++ text) rest

@[simp] theorem Span.ofText_start_offset (pre text : List Char) :
    (Span.ofText pre text).start.offset = byteCount pre := by
  simp only [Span.ofText, Position.advance_start]

@[simp] theorem Span.ofText_stop_offset (pre text : List Char) :
    (Span.ofText pre text).stop.offset = byteCount (pre ++ text) := by
  simp only [Span.ofText, Position.advance_start]

/-- A stretch of text precedes whatever begins behind it. -/
theorem Span.ofText_precedes {pre text : List Char} (h : text ≠ []) {s : Span}
    (hle : byteCount (pre ++ text) ≤ s.start.offset) : (Span.ofText pre text).Precedes s := by
  have hpos := byteCount_pos h
  rw [byteCount_append] at hle
  constructor
  · rw [Span.ofText_start_offset]
    omega
  · rwa [Span.ofText_stop_offset, byteCount_append]

/-- Where an item stands. -/
def Item.span : Item → Span
  | token t => t.span
  | fault e => e.span

theorem Item.span_of_token? {item : Item} {token : Token} (h : token ∈ item.token?) :
    token.span = item.span := by
  cases item <;> cases h
  rfl

theorem Item.span_of_error? {item : Item} {error : Error} (h : error ∈ item.error?) :
    error.span = item.span := by
  cases item <;> cases h
  rfl

namespace Cut

variable {pre cs : List Char} {items : List Item}

/-- Items stand at places of the source. -/
theorem span_right (h : Cut pre cs items) : ∀ item ∈ items, item.span.Right (pre ++ cs) := by
  induction h with
  | done =>
    intro item hitem
    cases hitem
  | skip skipped more ih => rwa [← List.append_assoc]
  | @token pre text rest value kind items lexed spelling visible more ih =>
    intro item hitem
    rcases List.mem_cons.mp hitem with rfl | hitem
    · exact Span.right_ofText pre text rest
    · rw [← List.append_assoc]
      exact ih item hitem
  | @fault pre shown hidden rest cause items visible more ih =>
    intro item hitem
    rcases List.mem_cons.mp hitem with rfl | hitem
    · rw [List.append_assoc]
      exact Span.right_ofText pre shown (hidden ++ rest)
    · rw [← List.append_assoc]
      exact ih item hitem

/-- Items stand behind the text before the cut. -/
theorem le_span_start (h : Cut pre cs items) :
    ∀ item ∈ items, byteCount pre ≤ item.span.start.offset := by
  induction h with
  | done =>
    intro item hitem
    cases hitem
  | skip skipped more ih =>
    intro item hitem
    have := ih item hitem
    rw [byteCount_append] at this
    omega
  | token lexed spelling visible more ih | fault visible more ih =>
    intro item hitem
    rcases List.mem_cons.mp hitem with rfl | hitem
    · exact (Span.ofText_start_offset _ _).ge
    · have := ih item hitem
      rw [byteCount_append] at this
      omega

/-- Items stand one behind the other, and before everything that begins behind the text. -/
theorem pairwise_precedes (h : Cut pre cs items) {last : Item}
    (hlast : byteCount (pre ++ cs) ≤ last.span.start.offset) :
    (items ++ [last]).Pairwise fun item item' => item.span.Precedes item'.span := by
  induction h with
  | done => exact List.pairwise_singleton _ _
  | skip skipped more ih => exact ih (by rwa [List.append_assoc])
  | @token pre text rest value kind items lexed spelling visible more ih =>
    rw [← List.append_assoc] at hlast
    refine .cons (fun item hitem => Span.ofText_precedes visible ?_) (ih hlast)
    rcases List.mem_append.mp hitem with hitem | hitem
    · exact more.le_span_start item hitem
    · rw [byteCount_append] at hlast
      obtain rfl := List.mem_singleton.mp hitem
      omega
  | @fault pre shown hidden rest cause items visible more ih =>
    rw [← List.append_assoc] at hlast
    refine .cons (fun item hitem => Span.ofText_precedes visible ?_) (ih hlast)
    rcases List.mem_append.mp hitem with hitem | hitem
    · have hle := more.le_span_start item hitem
      rw [← List.append_assoc, byteCount_append] at hle
      omega
    · rw [← List.append_assoc, byteCount_append, byteCount_append (pre ++ shown)] at hlast
      obtain rfl := List.mem_singleton.mp hitem
      omega

end Cut

/-! ## Tiles -/

/-- From an offset on, the source is made of the tokens, with blanks and comments before, between
and behind them. -/
def Tiles (source : List Char) : (offset : Nat) → List Token → Prop
  | offset, [] => Skipped [] (slice source offset (byteCount source))
  | offset, token :: tokens =>
    Skipped (slice source token.span.start.offset (byteCount source))
        (slice source offset token.span.start.offset) ∧
      slice source token.span.start.offset token.span.stop.offset =
        spelled token.kind token.value.toList ∧
      Tiles source token.span.stop.offset tokens

/-- Where nothing is wrong the tokens tile the text.  The text `gap` is what was passed over since
the last token. -/
theorem Cut.tiles {pre cs : List Char} {items : List Item} (h : Cut pre cs items)
    {before gap : List Char} (hpre : pre = before ++ gap) (hgap : Skipped cs gap)
    (hgood : ∀ item ∈ items, item.error? = none) :
    Tiles (pre ++ cs) (byteCount before) (items.filterMap Item.token?) := by
  induction h generalizing before gap with
  | @done pre =>
    subst hpre
    have hslice := slice_append before gap []
    simp only [List.append_nil] at hslice
    simpa only [List.filterMap_nil, Tiles, List.append_nil, hslice] using hgap
  | @skip pre text rest items skipped more ih =>
    rw [← List.append_assoc]
    exact ih (by rw [hpre, List.append_assoc]) (hgap.append skipped) hgood
  | @token pre text rest value kind items lexed spelling visible more ih =>
    subst hpre
    have hrest := ih (List.append_nil _).symm .nil
      fun item hitem => hgood item (List.mem_cons_of_mem _ hitem)
    rw [List.append_assoc (before ++ gap)] at hrest
    have hgapText := slice_append before gap (text ++ rest)
    have hafter := slice_append (before ++ gap) (text ++ rest) []
    rw [← List.append_assoc] at hgapText
    rw [List.append_nil] at hafter
    simp only [List.filterMap_cons, Item.token?, Tiles, Span.ofText_start_offset,
      Span.ofText_stop_offset, String.toList_ofList]
    refine ⟨?_, ?_, hrest⟩
    · rwa [hgapText, hafter]
    · rw [slice_append, spelling]
  | @fault pre shown hidden rest cause items visible more ih =>
    exact absurd (hgood _ List.mem_cons_self) (by simp [Item.error?])

/-! ## The result of a scan -/

/-- **Tokens tile the source.**  Whatever the source: tokens, or else errors, stand at places of the
source and one behind the other; and where there are tokens, the last one marks the end, the others
are what the source spells at their places, and all else is blanks and comments. -/
theorem tokenize_tiles_source (source : String) :
    match tokenize source with
    | .ok tokens =>
      (∀ token ∈ tokens, token.span.Right source.toList) ∧
      tokens.Pairwise (fun token token' => token.span.Precedes token'.span) ∧
      ∃ body last, tokens = body ++ [last] ∧
        (last.kind = .endOfInput ∧ last.span.start = last.span.stop ∧
          last.span.start.offset = source.utf8ByteSize) ∧
        Tiles source.toList 0 body
    | .error errors =>
      errors ≠ [] ∧ (∀ error ∈ errors, error.span.Right source.toList) ∧
      errors.Pairwise (fun error error' => error.span.Precedes error'.span) := by
  have hcut : Cut [] source.toList (scan .start source.toList) := cut_scan [] source.toList
  have hright := hcut.span_right
  have hend := Position.right_advance source.toList []
  rw [List.nil_append] at hright
  rw [List.append_nil] at hend
  have hoffset : (Position.start.advance source.toList).offset = byteCount source.toList := by
    rw [Position.advance_start]
  have hlast : byteCount ([] ++ source.toList) ≤
      (Item.token (.endAt (Position.start.advance source.toList))).span.start.offset := hoffset.ge
  have hordered := hcut.pairwise_precedes hlast
  split
  · next tokens h =>
    obtain ⟨hgood, rfl⟩ := tokenize_eq_ok_iff.mp h
    refine ⟨?_, ?_, _, _, rfl, ⟨rfl, rfl, ?_⟩, ?_⟩
    · intro token htoken
      rcases List.mem_append.mp htoken with htoken | htoken
      · obtain ⟨item, hitem, heq⟩ := List.mem_filterMap.mp htoken
        rw [Item.span_of_token? heq]
        exact hright item hitem
      · obtain rfl := List.mem_singleton.mp htoken
        exact ⟨hend, hend⟩
    · have htokens := hordered.filterMap Item.token? (S := fun s t => s.span.Precedes t.span)
        fun item item' hprecedes t ht t' ht' => by
          rwa [Item.span_of_token? ht, Item.span_of_token? ht']
      rwa [List.filterMap_append] at htokens
    · exact hoffset.trans (byteCount_toList source)
    · have hempty : ([] : List Char) = [] ++ [] := rfl
      exact hcut.tiles hempty .nil (List.filterMap_eq_nil_iff.mp hgood)
  · next errors h =>
    obtain ⟨rfl, hne⟩ := tokenize_eq_error_iff.mp h
    refine ⟨hne, ?_, ?_⟩
    · intro error herror
      obtain ⟨item, hitem, heq⟩ := List.mem_filterMap.mp herror
      rw [Item.span_of_error? heq]
      exact hright item hitem
    · refine (List.Pairwise.sublist (List.sublist_append_left _ _) hordered).filterMap Item.error?
        fun item item' hprecedes e he e' he' => ?_
      rwa [Item.span_of_error? he, Item.span_of_error? he']

end TypedImp
