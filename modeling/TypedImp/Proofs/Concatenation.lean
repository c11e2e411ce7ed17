import TypedImp.Proofs.Grammar.PastEnd
import TypedImp.Proofs.Grammar.SameWords
import TypedImp.Proofs.ParsingProgress
import TypedImp.Proofs.Token.Joining

/-!
# Sources one below the other

Two sources that can be parsed are written one below the other.  The text that comes about is parsed
into the definitions of the first source followed by those of the second one.  Those of the first
one keep their places, those of the second one are moved and otherwise stay the same.

## How the program is put together

Reading a program is a chain of steps from one cursor to the next, one step for each definition.
The chain of the first source is also a chain in the tokens of both, because no definition looks
past the end of its tokens.  It ends in front of the tokens of the second source.  These are the
tokens of that source in other places, so they have a chain that differs in places only; and this
chain is followed in the same way, although tokens have been passed before it.

* `sameWords_moved`: the tokens of a source in another place.
* `Defines`: chains of definitions, with `Defines.resumed` and `Defines.append`.
* `joined_sources_parse`: **two sources with a line break between them**.
-/

namespace TypedImp

/-! ## Tokens in other places -/

section

variable {found : List Occurrence} {pre pre' : List Char} {p p' : Position}

/-- A token before the end of the moved tokens is one of them. -/
theorem exists_occurrence {i : Nat} {t : Token} (hkind : t.kind ≠ .endOfInput)
    (h : (found.map (·.token pre) ++ [.endAt p])[i]? = some t) :
    ∃ o : Occurrence, t = o.token pre ∧
      (found.map (·.token pre') ++ [.endAt p'])[i]? = some (o.token pre') := by
  have hi : i < found.length := by
    by_contra hlast
    rw [List.getElem?_append_right (by rw [List.length_map]; omega)] at h
    obtain rfl := List.mem_singleton.mp (List.mem_of_getElem? h)
    exact hkind rfl
  rw [List.getElem?_append_left (by rwa [List.length_map]), List.getElem?_map] at h ⊢
  obtain ⟨o, ho, rfl⟩ := Option.map_eq_some_iff.mp h
  exact ⟨o, rfl, by rw [ho]; rfl⟩

/-- Moving tokens leaves the distances between them. -/
theorem TightAt.moved {i : Nat} (h : TightAt (found.map (·.token pre) ++ [.endAt p]) i) :
    TightAt (found.map (·.token pre') ++ [.endAt p']) i := by
  obtain ⟨whole, hw, point, hp, fraction, hf, hnumber, hdot, hdigits, hleft, hright⟩ := h
  obtain ⟨o₁, rfl, hw'⟩ := exists_occurrence (by rw [hnumber]; decide) hw
  obtain ⟨o₂, rfl, hp'⟩ := exists_occurrence (by rw [hdot]; decide) hp
  obtain ⟨o₃, rfl, hf'⟩ := exists_occurrence (by rw [hdigits]; decide) hf
  simp only [Occurrence.token, Span.ofText_start_offset, Span.ofText_stop_offset,
    byteCount_append] at hleft hright
  refine ⟨_, hw', _, hp', _, hf', hnumber, hdot, hdigits, ?_, ?_⟩ <;>
    simp only [Occurrence.token, Span.ofText_start_offset, Span.ofText_stop_offset,
      byteCount_append] <;> omega

/-- The tokens of a source read the same wherever the source stands. -/
theorem sameWords_moved : SameWords (found.map (·.token pre) ++ [.endAt p])
    (found.map (·.token pre') ++ [.endAt p']) := by
  refine ⟨?_, fun i => ⟨.moved, .moved⟩⟩
  simp only [List.map_append, List.map_map]
  rfl

end

/-! ## Programs one after the other -/

/-- The definitions of two programs, each sort in order. -/
def Program.append (p q : Program) : Program :=
  ⟨p.globals ++ q.globals, p.functions ++ q.functions⟩

namespace Parse

/-- Something is made of an answer, and then something else of that. -/
theorem pure_eq_ok_of_eq {α β γ : Type} {x : Parse α} {f : α → β} {f' : α → γ} {k : β → γ} {b : β}
    {c d : Cursor} (h : (x >>= fun a => pure (f a)) c = .ok b d) (hf : ∀ a, f' a = k (f a)) :
    (x >>= fun a => pure (f' a)) c = .ok (k b) d := by
  obtain ⟨a, c₁, ha, hlast⟩ := bind_eq_ok h
  cases hlast
  rw [bind_of_ok ha, hf]
  rfl

/-- A definition is added without regard to those before it. -/
theorem definition_append {g : Grammar} {fuel : Nat} {p p' : Program} {c d : Cursor} (r : Program)
    (h : definition g fuel p c = .ok p' d) :
    definition g fuel (r.append p) c = .ok (r.append p') d := by
  unfold definition at h ⊢
  rw [currentKind_bind] at h ⊢
  split at h
  · next hname =>
    rw [if_pos hname]
    rw [peekKind_bind, peekKind_bind] at h ⊢
    generalize (c.peek 1).kind = k, (c.peek 2).kind = k' at h ⊢
    split at h
    · exact pure_eq_ok_of_eq h fun f => by simp only [Program.append, List.append_assoc]
    · exact pure_eq_ok_of_eq h fun decl => by simp only [Program.append, List.append_assoc]
    · exact pure_eq_ok_of_eq h fun decl => by simp only [Program.append, List.append_assoc]
    · cases h
  · cases h

end Parse

/-! ## Chains of definitions -/

namespace Parse

/-- Definitions lead from `c` to another cursor, and with them one program grows to another. -/
inductive Defines : Program → Cursor → Program → Cursor → Prop
  | done {p : Program} {c : Cursor} : Defines p c p c
  | step {p p' q : Program} {c d e : Cursor} (opens : c.current.kind = .identifier)
    (first : Gives 0 (definition .standard · p) c p' d)
    (shorter : d.ahead.length < c.ahead.length) (more : Defines p' d q e) : Defines p c q e

/-- What steadily ends, and answers once with fuel enough, always answers so. -/
theorem gives_of_ok {α : Type} {d n fuel : Nat} {x : Nat → Parse α} {c c' : Cursor} {a : α}
    (h : Steady d n x c) (hfuel : 4 * c.ahead.length + d ≤ fuel) (hok : x fuel c = .ok a c') :
    Gives d x c a c' := by
  obtain ⟨r, hr, -⟩ := h
  exact fun fuel' hfuel' => (hr fuel' hfuel').trans ((hr fuel hfuel).symm.trans hok)

/-- A definition begins with a name. -/
theorem name_of_definition {g : Grammar} {fuel : Nat} {p p' : Program} {c d : Cursor}
    (h : definition g fuel p c = .ok p' d) : c.current.kind = .identifier := by
  by_contra hname
  rw [definition, currentKind_bind, if_neg hname] at h
  cases h

/-- Reading definitions with fuel enough is following a chain up to the end. -/
theorem defines_of_ok {fuel : Nat} {p q : Program} {c d : Cursor} (hc : c.Ends)
    (hfuel : 4 * c.ahead.length + 4 ≤ fuel) (h : definitions .standard fuel p c = .ok q d) :
    Defines p c q d := by
  induction fuel generalizing p c with
  | zero => omega
  | succ fuel ih =>
    rw [definitions_succ_apply] at h
    split at h
    · cases h
      exact .done
    · obtain ⟨p', c₁, hfirst, hrest⟩ := bind_eq_ok h
      have hsteady : Steady 0 1 (definition .standard · p) c := steady_definition hc p
      obtain ⟨hc₁, hshorter⟩ := hsteady.ends_of_ok hc (by omega) hfirst
      exact .step (name_of_definition hfirst) (gives_of_ok hsteady (by omega) hfirst) (by omega)
        (ih hc₁ (by omega) hrest)

namespace Defines

variable {p q r : Program} {c d e : Cursor}

theorem append (r : Program) (h : Defines p c q d) : Defines (r.append p) c (r.append q) d := by
  induction h with
  | done => exact .done
  | step opens first shorter _ ih =>
    exact .step opens (fun fuel hfuel => definition_append r (first fuel hfuel)) shorter ih

theorem trans (h : Defines p c q d) (h' : Defines q d r e) : Defines p c r e := by
  induction h with
  | done => exact h'
  | step opens first shorter _ ih => exact .step opens first shorter (ih h')

/-- A chain up to the end is what is read. -/
theorem gives (h : Defines p c q d) (hend : d.current.kind = .endOfInput) :
    Gives 1 (definitions .standard · p) c q d := by
  induction h with
  | done => exact definitions_done hend
  | step opens first shorter _ ih =>
    exact definitions_step (by rw [opens]; decide) first shorter (ih hend)

/-- Where a chain up to the end begins there is a name, or the end. -/
theorem opens (h : Defines p c q d) (hend : d.current.kind = .endOfInput) :
    c.current.kind = .endOfInput ∨ c.current.kind = .identifier := by
  cases h with
  | done => exact .inl hend
  | step opens => exact .inr opens

/-- **A chain is also one in front of other definitions.** -/
theorem resumed {rest : List Token} {c' : Cursor} (h : Defines p c q d) (hc : c.Ends)
    (hc' : c'.Ends) (hahead : c.Ahead rest c') : ∃ d', Defines p c' q d' ∧ d.Ahead rest d' := by
  induction h generalizing c' with
  | done => exact ⟨c', .done, hahead⟩
  | @step p p' q c d e opens first shorter _ ih =>
    -- fuel enough for both cursors
    have hfirst := first (4 * c.ahead.length + 4 * c'.ahead.length) (by omega)
    obtain ⟨d', hfirst', hd⟩ := definition_resumes _ p hahead p' d hfirst
    have hsteady : Steady 0 1 (definition .standard · p) c := steady_definition hc p
    have hsteady' : Steady 0 1 (definition .standard · p) c' := steady_definition hc' p
    obtain ⟨hdEnds, -⟩ := hsteady.ends_of_ok hc (by omega) hfirst
    obtain ⟨hdEnds', hshorter'⟩ := hsteady'.ends_of_ok hc' (by omega) hfirst'
    obtain ⟨e', hmore, he⟩ := ih hdEnds hdEnds' hd.ahead
    exact ⟨e', .step (name_of_definition hfirst') (gives_of_ok hsteady' (by omega) hfirst')
      (by omega) hmore, he⟩

end Defines

end Parse

/-! ## Whole sources -/

/-- What is parsed is a chain of definitions up to the end. -/
theorem defines_of_parse {tokens : List Token} {p : Program} (h : parse tokens = .ok p) :
    ∃ d, Parse.Defines .empty (Cursor.ofTokens tokens) p d ∧ d.current.kind = .endOfInput := by
  unfold parse at h
  dsimp only at h
  cases hread : Parse.definitions .standard (Cursor.ofTokens tokens).fuel .empty
      (Cursor.ofTokens tokens) with
  | ok q d =>
    rw [hread] at h
    cases h
    exact ⟨d, Parse.defines_of_ok (Cursor.ends_ofTokens tokens) (Parse.le_fuel _ (by omega)) hread,
      end_of_definitions hread⟩
  | error stop d =>
    rw [hread] at h
    cases h

/-- A chain of definitions up to the end is what is parsed. -/
theorem parse_of_defines {tokens : List Token} {p : Program} {d : Cursor}
    (h : Parse.Defines .empty (Cursor.ofTokens tokens) p d) (hend : d.current.kind = .endOfInput) :
    parse tokens = .ok p := by
  have hread : Parse.definitions .standard (Cursor.ofTokens tokens).fuel .empty
      (Cursor.ofTokens tokens) = .ok p d := h.gives hend _ (Parse.le_fuel _ (by omega))
  unfold parse
  dsimp only
  rw [hread]

/-- Lists of definitions one after the other. -/
theorem parse_append {ts ts' : List Token} {at₁ at₂ : Position} {p q : Program}
    (hvisible : ∀ t ∈ ts, t.kind ≠ .endOfInput) (hvisible' : ∀ t ∈ ts', t.kind ≠ .endOfInput)
    (hp : parse (ts ++ [.endAt at₁]) = .ok p) (hq : parse (ts' ++ [.endAt at₂]) = .ok q) :
    parse (ts ++ (ts' ++ [.endAt at₂])) = .ok (p.append q) := by
  obtain ⟨d, hchain, hd⟩ := defines_of_parse hp
  obtain ⟨e, hchain', he⟩ := defines_of_parse hq
  obtain ⟨hends, htokens⟩ := @Cursor.ofTokens_append_end ts at₁
  obtain ⟨hends', htokens'⟩ := @Cursor.ofTokens_append_end ts' at₂
  obtain ⟨hjoined, htokensJoined⟩ := @Cursor.ofTokens_append_end (ts ++ ts') at₂
  rw [List.append_assoc] at hjoined htokensJoined
  -- the first chain, with the tokens of the second list behind it
  have hahead : (Cursor.ofTokens (ts ++ [.endAt at₁])).Ahead (ts' ++ [.endAt at₂])
      (Cursor.ofTokens (ts ++ (ts' ++ [.endAt at₂]))) := by
    unfold Cursor.Ahead
    rw [htokens, htokensJoined, ← htokens']
    exact goesOn_append hvisible rfl (hchain'.opens he)
  obtain ⟨d', hfirst, hd'⟩ := hchain.resumed hends hjoined hahead
  have hrest := hd'.rest_eq hd
  -- the second chain, with other tokens before it
  obtain ⟨hcurrent, haheadEq⟩ := List.cons.inj (hrest.trans htokens'.symm)
  have hdEnds : d'.Ends := by
    unfold Cursor.Ends
    rw [hcurrent, haheadEq]
    exact hends'
  have hahead' : (Cursor.ofTokens (ts' ++ [.endAt at₂])).Ahead [.endAt at₂] d' := by
    unfold Cursor.Ahead
    rw [htokens', hrest]
    exact goesOn_append hvisible' rfl (.inl rfl)
  obtain ⟨e', hsecond, he'⟩ := hchain'.resumed hends' hdEnds hahead'
  have hlast : e'.current.kind = .endOfInput := by
    rw [(List.cons.inj (he'.rest_eq he)).1]
    rfl
  have happend := hsecond.append p
  have hempty : p.append .empty = p := by simp [Program.append, Program.empty]
  rw [hempty] at happend
  exact parse_of_defines (hfirst.trans happend) hlast

/-- **Two sources with a line break between them** are parsed into the definitions of the first one,
in their places, followed by those of the second one, in other places. -/
theorem joined_sources_parse {source source' : String} {tokens tokens' : List Token}
    {p p' : Program} (h : tokenize source = .ok tokens) (hp : parse tokens = .ok p)
    (h' : tokenize source' = .ok tokens') (hp' : parse tokens' = .ok p') :
    ∃ (joined : List Token) (q : Program), tokenize (source ++ "\n" ++ source') = .ok joined ∧
      parse joined = .ok ⟨p.globals ++ q.globals, p.functions ++ q.functions⟩ ∧
      q.erase = p'.erase := by
  obtain ⟨found, hfound, hvisible, rfl⟩ := exists_findsAnywhere h
  obtain ⟨found', hfound', hvisible', rfl⟩ := exists_findsAnywhere h'
  have halike := parsedAlike_of_sameWords (@sameWords_moved found' []
    (source.toList ++ ['\n']) (Position.start.advance source'.toList)
    (Position.start.advance (source ++ "\n" ++ source').toList))
  rw [hp'] at halike
  generalize hmoved : parse (found'.map (·.token (source.toList ++ ['\n'])) ++
    [.endAt (Position.start.advance (source ++ "\n" ++ source').toList)]) = moved at halike
  cases halike with
  | @ok _ q same =>
    refine ⟨_, q, hfound.tokenize_joined hfound', parse_append ?_ ?_ hp hmoved, same.symm⟩
    · exact List.forall_mem_map.mpr fun o ho => hvisible o ho
    · exact List.forall_mem_map.mpr fun o ho => hvisible' o ho

/-- The program of a source that can be parsed. -/
def parsed? (source : String) : Option Program :=
  (tokenize source).toOption.bind fun tokens => (parse tokens).toOption

theorem exists_parsed {source : String} (h : (parsed? source).isSome) :
    ∃ tokens p, tokenize source = .ok tokens ∧ parse tokens = .ok p := by
  unfold parsed? at h
  cases htokens : tokenize source with
  | error errors =>
    rw [htokens] at h
    cases h
  | ok tokens =>
    cases hparsed : parse tokens with
    | error stop =>
      simp [htokens, hparsed, Except.toOption] at h
    | ok p => exact ⟨tokens, p, rfl, hparsed⟩

/-- A variable and a function, with a comment up to the end of the text. -/
def upperText : String := "half:=0.5;twice:(n:Int32)->Int32=\x7breturn n+n;\x7d// n := 1;"

/-- A variable and a function with a semicolon behind it. -/
def lowerText : String := "n:Int32=-1;main:()->Int32=\x7breturn twice(n);\x7d;"

/-- The comment ends with its line, and the function in front of it needs no semicolon. -/
theorem lowerText_below_upperText : ∃ tokens tokens' p p',
    tokenize upperText = .ok tokens ∧ parse tokens = .ok p ∧
    tokenize lowerText = .ok tokens' ∧ parse tokens' = .ok p' ∧
    (∃ (joined : List Token) (q : Program),
      tokenize (upperText ++ "\n" ++ lowerText) = .ok joined ∧
      parse joined = .ok ⟨p.globals ++ q.globals, p.functions ++ q.functions⟩ ∧
      q.erase = p'.erase) := by
  obtain ⟨tokens, p, h, hp⟩ := exists_parsed (by decide +kernel : (parsed? upperText).isSome)
  obtain ⟨tokens', p', h', hp'⟩ := exists_parsed (by decide +kernel : (parsed? lowerText).isSome)
  exact ⟨tokens, tokens', p, p', h, hp, h', hp', joined_sources_parse h hp h' hp'⟩

end TypedImp
