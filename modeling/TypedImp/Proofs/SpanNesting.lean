import TypedImp.Proofs.Places.Parsed

/-!
# Spans nest

A span is put together from ends of different kinds: a name, the left operand, the token that was
passed last, a closing parenthesis.  Whatever these are, the spans of a program fit into each other
like the nodes that carry them.  Every node covers text from one token to a later one, its children
lie inside, and they stand next to each other in the order of the source.

## From rows to text

Each node was read from a row of tokens, and its children from parts of this row that follow one
another.  Each token of a text ends before the next one begins, so a comparison of numbers in a row
is a comparison of places in the text.

The one exception is the second block of a choice without `else`.  The tree does not tell whether
there was an `else`; the tokens do, in the one that follows the first block.

* `Node.LacksElse`: a choice without `else`.
* `Node.SpansNest`: what is claimed of a node.
* `spans_nest`: **the spans of every parsed program nest**.
-/

namespace TypedImp

/-! ## Tokens one after the other -/

namespace Spaced

variable {source : List Char} {tokens : List Token} {i k : Nat} {t t' : Token}

theorem start_lt_stop (hs : Spaced source tokens) (ht : tokens[i]? = some t)
    (hkind : t.kind ≠ .endOfInput) : t.span.start.offset < t.span.stop.offset :=
  (hs.covers ht hkind).start_lt_stop

theorem stop_lt (hs : Spaced source tokens) (ht : tokens[i]? = some t) (ht' : tokens[k]? = some t')
    (hkind : t'.kind ≠ .endOfInput) (hlt : i < k) :
    t.span.stop.offset < t'.span.stop.offset :=
  Nat.lt_of_le_of_lt (hs.precedes ht ht' hlt).2 (hs.start_lt_stop ht' hkind)

/-- Two tokens that end at the same place are the same. -/
theorem index_unique (hs : Spaced source tokens) (ht : tokens[i]? = some t)
    (ht' : tokens[k]? = some t') (hkind : t.kind ≠ .endOfInput) (hkind' : t'.kind ≠ .endOfInput)
    (hstop : t.span.stop = t'.span.stop) : i = k := by
  rcases Nat.lt_trichotomy i k with hlt | heq | hlt
  · have := hs.stop_lt ht ht' hkind' hlt
    rw [hstop] at this
    omega
  · exact heq
  · have := hs.stop_lt ht' ht hkind hlt
    rw [hstop] at this
    omega

end Spaced

/-! ## Spans of rows -/

namespace Span.Over

variable {source : List Char} {tokens : List Token} {s t : Span} {i j i' j' : Nat}

theorem start_lt_stop (h : s.Over tokens i j) (hs : Spaced source tokens) :
    s.start.offset < s.stop.offset := by
  cases h with
  | intro le first_eq last_eq visible start_eq stop_eq =>
    rw [start_eq, stop_eq]
    exact Nat.lt_of_le_of_lt (hs.start_le first_eq last_eq le) (hs.start_lt_stop last_eq visible)

/-- The span of a part of a row lies within that of the row. -/
theorem within (h : s.Over tokens i j) (h' : t.Over tokens i' j') (hs : Spaced source tokens)
    (hi : i ≤ i') (hj : j' ≤ j) :
    s.start.offset ≤ t.start.offset ∧ t.stop.offset ≤ s.stop.offset := by
  cases h with
  | intro _ first_eq last_eq visible start_eq stop_eq =>
    cases h' with
    | intro _ first_eq' last_eq' _ start_eq' stop_eq' =>
      rw [start_eq, stop_eq, start_eq', stop_eq']
      refine ⟨hs.start_le first_eq first_eq' hi, ?_⟩
      rcases Nat.lt_or_eq_of_le (Nat.le_of_succ_le_succ hj) with hlt | rfl
      · exact Nat.le_of_lt (hs.stop_lt last_eq' last_eq visible hlt)
      · rw [Option.some.inj (last_eq.symm.trans last_eq')]

/-- The span of a row ends before that of a later one begins. -/
theorem stop_le_start (h : s.Over tokens i j) (h' : t.Over tokens i' j') (hs : Spaced source tokens)
    (hle : j ≤ i') : s.stop.offset ≤ t.start.offset := by
  cases h with
  | intro _ _ last_eq _ _ stop_eq =>
    cases h' with
    | intro _ first_eq' _ _ start_eq' _ =>
      rw [stop_eq, start_eq']
      exact (hs.precedes last_eq first_eq' (by omega)).2

end Span.Over

/-- Nodes that follow one another in a row do so in the text. -/
theorem Row.pairwise {source : List Char} {tokens : List Token} {lo hi : Nat} {ns : List Node}
    (hs : Spaced source tokens) (h : Row (fun i j n => n.span.Over tokens i j) lo hi ns) :
    ns.Pairwise fun m m' => m.span.stop.offset ≤ m'.span.start.offset := by
  induction h with
  | nil => exact .nil
  | cons _ first rest ih =>
    refine .cons (fun m hm => ?_) ih
    obtain ⟨i', j', hle, -, hm⟩ := rest.exists_of_mem (fun _ _ _ h => h.lt) hm
    exact first.stop_le_start hm hs hle

/-! ## Nodes -/

/-- The first block of a choice. -/
def Node.thenBlock? : Node → Option (Block Stmt)
  | .stmt (.ifThenElse _ thenBlock _ _) => some thenBlock
  | _ => none

/-- A choice without `else`: the token behind the last one of its first block is another one. -/
def Node.LacksElse (tokens : List Token) (n : Node) : Prop :=
  ∃ thenBlock ∈ n.thenBlock?, ∃ k < tokens.length,
    (∃ last ∈ tokens[k]?, last.kind ≠ .endOfInput ∧ last.span.stop = thenBlock.span.stop) ∧
      ∃ next ∈ tokens[k + 1]?, next.kind ≠ .elseWord

instance (tokens : List Token) (n : Node) : Decidable (n.LacksElse tokens) :=
  inferInstanceAs (Decidable (∃ thenBlock ∈ n.thenBlock?, ∃ k < tokens.length,
    (∃ last ∈ tokens[k]?, last.kind ≠ .endOfInput ∧ last.span.stop = thenBlock.span.stop) ∧
      ∃ next ∈ tokens[k + 1]?, next.kind ≠ .elseWord))

/-- The span of a node fits to those of its children.

* It is not empty, begins with a token and ends with the same or a later one.
* Those of the children lie within it.
* One child ends before the next one begins, in the order of the source.  In a choice without `else`
  this holds of the condition and the first block; the second block is empty and has the span of the
  last token of the first one. -/
structure Node.SpansNest (tokens : List Token) (n : Node) : Prop where
  nonempty : n.span.start.offset < n.span.stop.offset
  ends : ∃ (i k : Nat) (first last : Token), i ≤ k ∧ tokens[i]? = some first ∧
    tokens[k]? = some last ∧ last.kind ≠ .endOfInput ∧
      n.span.start = first.span.start ∧ n.span.stop = last.span.stop
  within : ∀ m ∈ n.children,
    n.span.start.offset ≤ m.span.start.offset ∧ m.span.stop.offset ≤ n.span.stop.offset
  ordered : ¬ n.LacksElse tokens →
    n.children.Pairwise fun m m' => m.span.stop.offset ≤ m'.span.start.offset
  lacking : n.LacksElse tokens → ∀ condition thenBlock elseBlock span,
    n = .stmt (.ifThenElse condition thenBlock elseBlock span) →
      condition.span.stop.offset ≤ thenBlock.span.start.offset ∧ elseBlock.body = [] ∧
      ∃ (k : Nat) (last : Token), tokens[k]? = some last ∧ last.kind ≠ .endOfInput ∧
        last.span.stop = thenBlock.span.stop ∧ elseBlock.span = last.span

namespace Node.Placed

variable {source : List Char} {tokens : List Token} {i j : Nat} {n : Node}

/-- The children of a node are in parts of its row. -/
theorem exists_of_mem (h : n.Placed tokens i j) {m : Node} (hm : m ∈ n.children) :
    ∃ i' j', i ≤ i' ∧ j' ≤ j ∧ m.span.Over tokens i' j' := by
  cases h with
  | plain _ _ row => exact row.exists_of_mem (fun _ _ _ h => h.lt) hm
  | choice _ condition_row then_extent else_part =>
    have hcondition := condition_row.le_of_lt fun _ _ _ h => h.lt
    have hthen := then_extent.lt
    have helse := else_part.le_of_lt fun _ _ _ h => h.lt
    simp only [Node.children, List.mem_cons, List.not_mem_nil, or_false] at hm
    rcases hm with rfl | rfl | rfl
    · obtain ⟨i', j', hi, hj, hover⟩ :=
        condition_row.exists_of_mem (fun _ _ _ h => h.lt) List.mem_cons_self
      exact ⟨i', j', hi, by omega, hover⟩
    · exact ⟨_, _, hcondition, helse, then_extent⟩
    · cases else_part with
      | present _ _ block => exact ⟨_, _, by omega, Nat.le_refl j, block⟩
      | lacking _ _ last_eq body_eq span_eq =>
        have hblock := Node.At.of_lacking then_extent last_eq body_eq span_eq
        exact ⟨_, _, by omega, Nat.le_refl _, hblock.extent⟩

/-- The children of a node follow one another, unless it is a choice without `else`. -/
theorem row (h : n.Placed tokens i j) (hlacks : ¬ n.LacksElse tokens) :
    Row (fun i j n => n.span.Over tokens i j) i j n.children := by
  cases h with
  | plain _ _ row => exact row
  | choice _ condition_row then_extent else_part =>
    cases else_part with
    | present _ _ block =>
      exact condition_row.append (.cons (Nat.le_refl _) then_extent
        (.cons (Nat.le_succ _) block (.nil (Nat.le_refl _))))
    | lacking next_eq kind_ne last_eq =>
      refine absurd ?_ hlacks
      cases then_extent with
      | intro _ _ last_eq' visible _ stop_eq =>
        have hlength := (List.getElem?_eq_some_iff.mp last_eq').1
        exact ⟨_, rfl, _, hlength, ⟨_, last_eq', visible, stop_eq.symm⟩, _, next_eq, kind_ne⟩

/-- Where there is no `else`, the second block is empty and has the span of the last token of the
first one. -/
theorem lacking {condition : Expr} {thenBlock elseBlock : Block Stmt} {span : Span}
    (h : (Node.stmt (.ifThenElse condition thenBlock elseBlock span)).Placed tokens i j)
    (hs : Spaced source tokens)
    (hlacks : (Node.stmt (.ifThenElse condition thenBlock elseBlock span)).LacksElse tokens) :
    condition.span.stop.offset ≤ thenBlock.span.start.offset ∧ elseBlock.body = [] ∧
      ∃ (k : Nat) (last : Token), tokens[k]? = some last ∧ last.kind ≠ .endOfInput ∧
        last.span.stop = thenBlock.span.stop ∧ elseBlock.span = last.span := by
  obtain ⟨_, ⟨⟩, k, -, ⟨last, hlast, hvisible, hstop⟩, next, hnext, hkind⟩ := hlacks
  cases h with
  | plain notChoice => cases notChoice
  | choice _ condition_row then_extent else_part =>
    obtain ⟨i', j', -, hj, hcondition⟩ :=
      condition_row.exists_of_mem (fun _ _ _ h => h.lt) List.mem_cons_self
    have hbefore := hcondition.stop_le_start then_extent hs hj
    cases then_extent with
    | intro _ _ last_eq visible _ stop_eq =>
      -- Both are the last token of the first block, so what is behind them is the same.
      obtain rfl := hs.index_unique hlast last_eq hvisible visible (hstop.trans stop_eq)
      cases else_part with
      | present word_eq kind_eq =>
        obtain rfl := Option.some.inj (word_eq.symm.trans hnext)
        exact absurd kind_eq hkind
      | lacking _ _ last_eq' body_eq span_eq =>
        obtain rfl := Option.some.inj (last_eq'.symm.trans hlast)
        exact ⟨hbefore, body_eq, k, _, hlast, hvisible, hstop, span_eq⟩

theorem spansNest (h : n.Placed tokens i j) (hs : Spaced source tokens) : n.SpansNest tokens := by
  refine ⟨h.extent.start_lt_stop hs, ?_, fun m hm => ?_, fun hlacks => ?_, ?_⟩
  · cases h.extent with
    | intro le first_eq last_eq visible start_eq stop_eq =>
      exact ⟨_, _, _, _, le, first_eq, last_eq, visible, start_eq, stop_eq⟩
  · obtain ⟨i', j', hi, hj, hm⟩ := h.exists_of_mem hm
    exact h.extent.within hm hs hi hj
  · exact (h.row hlacks).pairwise hs
  · rintro hlacks condition thenBlock elseBlock span rfl
    exact h.lacking hs hlacks

end Node.Placed

/-! ## Programs -/

/-- **Spans nest.**  In every program that was parsed, each node covers text from the beginning of
one token to the end of the same or a later one.  Its children lie within it, and one ends before
the next one begins.  Only the second block of a choice without `else` stands apart: it has the span
of the last token of the first block. -/
theorem spans_nest {source : String} {tokens : List Token} {p : Program}
    (scanned : tokenize source = .ok tokens) (parsed : parse tokens = .ok p) {root n : Node}
    (hroot : root ∈ p.roots) (hn : root.Contains n) : n.SpansNest tokens := by
  cases (allPlaced_of_parse scanned parsed root hroot).of_contains hn with
  | intro here => exact here.spansNest (spaced_of_tokenize scanned)

/-- A function that begins with a choice without `else`. -/
def guardText : String := "sign:(n:Int32)->Int32=\x7bif n<0\x7breturn 1;\x7dreturn n;\x7d"

/-- The choice is a node of the program, and its span fits to those of its children. -/
theorem guardText_spansNest : ∃ tokens p f s, tokenize guardText = .ok tokens ∧
    parse tokens = .ok p ∧ f ∈ p.functions ∧ s ∈ f.body.body ∧
      (Node.stmt s).LacksElse tokens ∧ (Node.stmt s).SpansNest tokens := by
  have hguard : ∃ f ∈ ((parse ((tokenize guardText).toOption.getD [])).toOption.getD
      .empty).functions, ∃ s ∈ f.body.body,
        (Node.stmt s).LacksElse ((tokenize guardText).toOption.getD []) := by decide +kernel
  have hscanned : (tokenize guardText).toOption.isSome := by decide +kernel
  have hparsed : (parse ((tokenize guardText).toOption.getD [])).toOption.isSome := by
    decide +kernel
  cases h : tokenize guardText with
  | error errors => rw [h] at hscanned; cases hscanned
  | ok tokens =>
    rw [h] at hguard hparsed
    dsimp only [Except.toOption, Option.getD] at hguard hparsed
    cases h' : parse tokens with
    | error stop => rw [h'] at hparsed; cases hparsed
    | ok p =>
      rw [h'] at hguard
      obtain ⟨f, hf, s, hs, hlacks⟩ := hguard
      have hroot : Node.function f ∈ p.roots :=
        List.mem_append_right _ (List.mem_map_of_mem hf)
      have hcontains : (Node.function f).Contains (.stmt s) :=
        .deeper (List.mem_append_right _ List.mem_cons_self)
          (.deeper (List.mem_map_of_mem hs) (.self _))
      exact ⟨tokens, p, f, s, rfl, h', hf, hs, hlacks, spans_nest h h' hroot hcontains⟩

end TypedImp
