import TypedImp.Proofs.Places.Covered
import TypedImp.Proofs.Places.Spread

/-!
# Where parsed trees stand

Parsing puts spans on everything it reads.  A span is that of a token, or it reaches from one token
to a later one, so it covers text; and an error stands at the token that should have been another
one, which is the end of the text at worst.

That spans reach from one token to a later one is known once the nodes of a program are placed on
the tokens.  What is added here is that the tokens of a text cover it in its order.

* `Token.Placed`, `Spaced`: tokens of a text.
* `Span.Over.covers`: spans from one token to a later one.
* `Node.AllSpans`, `Node.AllPlaced.allSpans`: nodes that are placed have spans that cover text.
* `Cursor.StopsWith.at`: errors have their places in the text.
* `places_of_parse`: **whole programs**.
-/

namespace TypedImp

/-! ## Tokens of a text -/

/-- A token covers text, unless it marks the end of the text. -/
structure Token.Placed (source : List Char) (t : Token) : Prop where
  points : t.span.Points source
  covers : t.kind ≠ .endOfInput → t.span.Covers source

/-- Tokens of a text, one after the other. -/
structure Spaced (source : List Char) (tokens : List Token) : Prop where
  ordered : tokens.Pairwise fun t t' => t.span.Precedes t'.span
  placed : ∀ t ∈ tokens, t.Placed source

/-- Of two tokens of a text, the one ends before the other begins. -/
theorem precedes_of_tokenize {source : String} {tokens : List Token}
    (h : tokenize source = .ok tokens) :
    tokens.Pairwise fun t t' => t.span.Precedes t'.span := by
  have hcut : Cut [] source.toList (scan .start source.toList) := cut_scan [] source.toList
  have hoffset : (Position.start.advance source.toList).offset = byteCount source.toList := by
    rw [Position.advance_start]
  have hlast : byteCount ([] ++ source.toList) ≤
      (Item.token (.endAt (Position.start.advance source.toList))).span.start.offset := hoffset.ge
  have hordered := (hcut.pairwise_precedes hlast).filterMap Item.token?
    (S := fun t t' => t.span.Precedes t'.span) fun item item' hprecedes t ht t' ht' => by
      rwa [Item.span_of_token? ht, Item.span_of_token? ht']
  obtain ⟨-, rfl⟩ := tokenize_eq_ok_iff.mp h
  rwa [List.filterMap_append] at hordered

theorem spaced_of_tokenize {source : String} {tokens : List Token}
    (h : tokenize source = .ok tokens) : Spaced source.toList tokens := by
  refine ⟨precedes_of_tokenize h, ?_⟩
  have hscan := covers_of_mem_scan [] source.toList
  obtain ⟨-, rfl⟩ := tokenize_eq_ok_iff.mp h
  intro t ht
  rcases List.mem_append.mp ht with ht | ht
  · obtain ⟨item, hitem, heq⟩ := List.mem_filterMap.mp ht
    have hcovers := (hscan item hitem).1
    rw [← Item.span_of_token? heq] at hcovers
    exact ⟨.inl hcovers, fun _ => hcovers⟩
  · obtain rfl := List.mem_singleton.mp ht
    exact ⟨.inr rfl, fun hkind => absurd rfl hkind⟩

/-- A text without characters is a program without definitions. -/
theorem parse_of_source_nil {source : String} {tokens : List Token} (hempty : source.toList = [])
    (h : tokenize source = .ok tokens) : parse tokens = .ok .empty := by
  obtain ⟨-, rfl⟩ := tokenize_eq_ok_iff.mp h
  rw [hempty, scan]
  rfl

/-! ## Spans -/

section

variable {source : List Char} {tokens : List Token} {s : Span} {i j k : Nat} {t t' : Token}

theorem Spaced.precedes (hs : Spaced source tokens) (ht : tokens[i]? = some t)
    (ht' : tokens[k]? = some t') (hlt : i < k) : t.span.Precedes t'.span := by
  obtain ⟨hi, rfl⟩ := List.getElem?_eq_some_iff.mp ht
  obtain ⟨hk, rfl⟩ := List.getElem?_eq_some_iff.mp ht'
  exact List.pairwise_iff_getElem.mp hs.ordered i k hi hk hlt

theorem Spaced.start_le (hs : Spaced source tokens) (ht : tokens[i]? = some t)
    (ht' : tokens[k]? = some t') (hle : i ≤ k) : t.span.start.offset ≤ t'.span.start.offset := by
  rcases Nat.lt_or_eq_of_le hle with hlt | rfl
  · exact Nat.le_of_lt (hs.precedes ht ht' hlt).1
  · rw [Option.some.inj (ht.symm.trans ht')]

theorem Spaced.covers (hs : Spaced source tokens) (ht : tokens[i]? = some t)
    (hkind : t.kind ≠ .endOfInput) : t.span.Covers source :=
  (hs.placed t (List.mem_of_getElem? ht)).covers hkind

/-- A span from one token of a text to a later one covers text. -/
theorem Span.Over.covers (h : s.Over tokens i j) (hs : Spaced source tokens) :
    s.Covers source := by
  cases h with
  | @intro _ first last le first_eq last_eq visible start_eq stop_eq =>
    have hlast := hs.covers last_eq visible
    have hlt := Nat.lt_of_le_of_lt (hs.start_le first_eq last_eq le) hlast.start_lt_stop
    have hjoin : s = first.span.join last.span := by rw [Span.join, ← start_eq, ← stop_eq]
    rw [hjoin]
    rcases (hs.placed first (List.mem_of_getElem? first_eq)).points with hfirst | hend
    · exact hfirst.join hlast hlt
    · -- no token begins at the end of the text and ends behind it
      rw [hend] at hlt
      exact absurd hlast.stop_le (Nat.not_le_of_lt hlt)

end

/-! ## Nodes -/

/-- All spans of a node have a property, but for those of blocks. -/
def Node.AllSpans (P : Span → Prop) : Node → Prop
  | function f => f.AllSpans P
  | parameter p => P p.span
  | block b => ∀ s ∈ b.body, s.AllSpans P
  | stmt s => s.AllSpans P
  | expr e => e.AllSpans P

section

variable {tokens : List Token} {P : Span → Prop}

/-- What holds of all spans from one token to a later one holds of all spans of a node that is
placed. -/
theorem Node.AllPlaced.allSpans {n : Node} (h : n.AllPlaced tokens)
    (hP : ∀ {s : Span} {i j : Nat}, s.Over tokens i j → P s) : n.AllSpans P := by
  induction h with
  | @intro _ _ n here _ ih =>
    have hspan := hP here.extent
    have second : ∀ {m m' : Node} (ms : List Node), m' ∈ m :: m' :: ms := fun _ =>
      List.mem_cons_of_mem _ List.mem_cons_self
    have values : ∀ {value : Option Expr}, (∀ m ∈ value.toList.map expr, m.AllSpans P) →
        ∀ e ∈ value, e.AllSpans P := fun h e he =>
      h (.expr e) (List.mem_map_of_mem (Option.mem_toList.mpr he))
    cases n with
    | function f =>
      exact ⟨fun p hp => ih (.parameter p) (List.mem_append_left _ (List.mem_map_of_mem hp)),
        ih (.block f.body) (List.mem_append_right _ List.mem_cons_self), hspan⟩
    | parameter p => exact hspan
    | block b => exact fun s hs => ih (.stmt s) (List.mem_map_of_mem hs)
    | stmt s =>
      cases s with
      | call => exact .call (ih _ List.mem_cons_self) hspan
      | define decl => exact .define ⟨values ih, hspan⟩
      | assign => exact .assign (ih _ List.mem_cons_self) hspan
      | ret => exact .ret (values ih) hspan
      | ifThenElse =>
        exact .ifThenElse (ih _ List.mem_cons_self) (ih (.block _) (second _))
          (ih (.block _) (List.mem_cons_of_mem _ (second _))) hspan
      | whileDo => exact .whileDo (ih _ List.mem_cons_self) (ih (.block _) (second _)) hspan
    | expr e =>
      cases e with
      | number => exact .number hspan
      | string => exact .string hspan
      | bool => exact .bool hspan
      | name => exact .name hspan
      | unary => exact .unary (ih _ List.mem_cons_self) hspan
      | binary => exact .binary (ih _ List.mem_cons_self) (ih _ (second _)) hspan
      | call =>
        exact .call (ih _ List.mem_cons_self)
          (fun a ha => ih (.expr a) (List.mem_cons_of_mem _ (List.mem_map_of_mem ha))) hspan

theorem Program.AllPlaced.allSpans {p : Program} (h : p.AllPlaced tokens)
    (hP : ∀ {s : Span} {i j : Nat}, s.Over tokens i j → P s) : p.AllSpans P := by
  obtain ⟨hglobals, hfunctions⟩ := Program.allPlaced_iff.mp h
  refine ⟨fun decl hdecl => ?_, fun f hf => (hfunctions f hf).allSpans hP⟩
  cases (hglobals decl hdecl).allSpans hP with
  | define defined => exact defined

end

/-! ## Programs and errors -/

theorem Cursor.StopsWith.at {source : List Char} {tokens : List Token} {c : Cursor} {e : Error}
    (h : c.StopsWith e) (hc : c.Along tokens) (hs : Spaced source tokens) :
    e.At .compile (Span.Points source) := by
  have hcurrent : ∀ {d : Cursor}, c.Moves d → d.current.span.Points source := fun hmoves =>
    (hs.placed _ (List.mem_of_getElem? (hc.of_moves hmoves).reads.getElem?_current)).points
  cases h with
  | unexpected reached => exact ⟨rfl, hcurrent reached, nofun⟩
  | unexpectedFor reached => exact ⟨rfl, hcurrent reached, nofun⟩
  | integer reached digits =>
    exact ⟨rfl, .inl (((hc.of_moves reached).span_over digits).covers hs), nofun⟩
  | decimal reached whole dot fraction =>
    have hover := (hc.of_moves reached).join_over_tokens whole dot.moves fraction
    exact ⟨rfl, .inl (hover.covers hs), nofun⟩

/-- **Programs and errors have their places in the text.**  A program that was parsed has spans that
cover text; an error of parsing belongs to the first stage and stands at a token, or at the end of a
text that is not empty. -/
theorem places_of_parse {source : String} {tokens : List Token}
    (htokens : tokenize source = .ok tokens) :
    match parse tokens with
    | .ok p => p.AllSpans (Span.Covers source.toList)
    | .error (.fault e) => e.At .compile (Span.Points source.toList) ∧ source.toList ≠ []
    | .error .exhausted => False := by
  have hs := spaced_of_tokenize htokens
  have hgrows := grows_of_parse tokens
  cases hparse : parse tokens with
  | ok p => exact (allPlaced_of_parse htokens hparse).allSpans fun hover => hover.covers hs
  | error stop =>
    rw [hparse] at hgrows
    cases stop with
    | fault e =>
      refine ⟨hgrows.at (along_of_tokenize htokens) hs, fun hempty => ?_⟩
      rw [parse_of_source_nil hempty htokens] at hparse
      cases hparse
    | exhausted => exact hgrows

end TypedImp
