import TypedImp.Proofs.Printing.Tokens

/-!
# Every word can be read

The words of a tree that can be written are scanned as what they are: names are no reserved words,
numbers consist of digits, string literals hold no quote, and all else is fixed.

* `Legible`: words that are scanned as what they are, with a law for each way to put words together.
* `Expr.WellFormed.legible`, `Stmt.WellFormed.legible`, `FunDecl.WellFormed.legible`: trees.
* `Program.WellFormed.legible`: whole programs.
-/

namespace TypedImp

/-! ## Words -/

/-- Words that are scanned as what they are. -/
def Legible (ws : List Word) : Prop := ∀ w ∈ ws, w.Legible

/-- Words that are signs. -/
def Word.isSign : Word → Bool
  | token kind text => Rule.sign text kind ∈ Rule.table
  | decimal _ _ => false

theorem legible_word {word : String} (h : isWord word.toList = true) :
    Word.Legible (.token (.ofWord word) word.toList) := by
  rw [Word.Legible]
  cases hword : word.toList with
  | nil =>
    rw [hword] at h
    cases h
  | cons c cs =>
    rw [hword, isWord, Bool.and_eq_true, List.all_eq_true] at h
    have hlexed := Lexed.word h.1 h.2
    rwa [← hword, String.ofList_toList, hword] at hlexed

namespace Legible

variable {ws ws' : List Word}

theorem nil : Legible [] := nofun

theorem cons {w : Word} (h : w.Legible) (hs : Legible ws) : Legible (w :: ws) :=
  List.forall_mem_cons.mpr ⟨h, hs⟩

theorem append (h : Legible ws) (h' : Legible ws') : Legible (ws ++ ws') :=
  List.forall_mem_append.mpr ⟨h, h'⟩

theorem flatMap {α : Type} {as : List α} {words : α → List Word}
    (h : ∀ a ∈ as, Legible (words a)) : Legible (as.flatMap words) := by
  intro w hw
  obtain ⟨a, ha, hw⟩ := List.mem_flatMap.mp hw
  exact h a ha w hw

theorem sign {w : Word} (h : w.isSign = true) (hs : Legible ws) : Legible (w :: ws) := by
  refine .cons ?_ hs
  cases w with
  | token kind text => exact .sign (of_decide_eq_true h)
  | decimal => cases h

theorem name {name : String} (h : isName name = true) (hs : Legible ws) :
    Legible (.name name :: ws) := by
  rw [isName, Bool.and_eq_true, decide_eq_true_eq] at h
  have hlegible := legible_word h.1
  rw [h.2] at hlegible
  exact .cons hlegible hs

theorem reserved {word : String} (h : isWord word.toList = true) (hs : Legible ws) :
    Legible (.reserved word :: ws) :=
  .cons (legible_word h) hs

theorem wrapped (h : Legible ws) (needed : Bool) : Legible (TypedImp.wrapped needed ws) := by
  cases needed with
  | false => exact h
  | true => exact .sign rfl (h.append (.sign rfl .nil))

theorem commaWords {items : List (List Word)} (h : ∀ ws ∈ items, Legible ws) :
    Legible (TypedImp.commaWords items) := by
  cases items with
  | nil => exact .nil
  | cons first rest =>
    refine (h first List.mem_cons_self).append (.flatMap fun ws hws => ?_)
    exact .sign rfl (h ws (List.mem_cons_of_mem _ hws))

end Legible

/-! ## Expressions and types -/

theorem Literal.Written.legible {value : Literal} {text : List Char} (h : value.Written text) :
    Legible (numberWords text) := by
  cases value with
  | int32 value =>
    rcases h with ⟨hdigits, -, -⟩ | ⟨-, digits, rfl, hdigits, -⟩
    · rw [numberWords_of_isDigits hdigits]
      exact .cons (lexed_of_isDigits hdigits) .nil
    · exact .sign rfl (.cons (lexed_of_isDigits hdigits) .nil)
  | float32 value =>
    obtain ⟨whole, fraction, rfl, hwhole, hfraction, -⟩ := h
    rw [numberWords_of_point hwhole]
    exact .cons ⟨hwhole, hfraction⟩ .nil

theorem Expr.WellFormed.legible {e : Expr} (h : e.WellFormed) : Legible e.words := by
  induction h with
  | number written => exact written.legible
  | string inside =>
    refine .cons (.string fun c hc => ?_) .nil
    obtain ⟨hquote, hline⟩ := inside c hc
    simp [isStringPart, hquote, hline]
  | @bool value =>
    cases value with
    | true => exact .reserved rfl .nil
    | false => exact .reserved rfl .nil
  | name free => exact .name free .nil
  | @unary op _ _ _ ih =>
    rw [Expr.words]
    exact .sign (by cases op <;> rfl) (ih.wrapped _)
  | @binary op _ _ _ _ _ ihLeft ihRight =>
    rw [Expr.words]
    exact (ihLeft.wrapped _).append (.sign (by cases op <;> rfl) (ihRight.wrapped _))
  | call _ _ ihCallee ihArguments =>
    rw [Expr.words, Expr.wordLists_eq_map]
    have harguments := Legible.commaWords (List.forall_mem_map.mpr ihArguments)
    exact (ihCallee.wrapped _).append (.sign rfl (harguments.append (.sign rfl .nil)))

theorem legible_type {placeholder : Bool} :
    ∀ {t : Ty}, t.isWritten placeholder = true → Legible t.words
  | .void, _ => .name rfl .nil
  | .bool, _ => .name rfl .nil
  | .int32, _ => .name rfl .nil
  | .float32, _ => .name rfl .nil
  | .deduced, _ => .reserved rfl .nil
  | .named _, h => .name (Bool.and_eq_true_iff.mp h).1 .nil
  | .pointer target, h => .sign rfl (@legible_type placeholder target h)

theorem legible_bindingTy {placeholder : Bool} {b : BindingTy}
    (h : b.ty.isWritten placeholder = true) : Legible b.words := by
  unfold BindingTy.words
  split
  · exact .reserved rfl (legible_type h)
  · exact legible_type h

/-! ## Statements and programs -/

theorem VarDecl.WellFormed.legible {decl : VarDecl} (h : decl.WellFormed) : Legible decl.words := by
  refine .name h.free (.append ?_ (.sign rfl .nil))
  have htype := legible_bindingTy h.typed
  have hvalue := h.initial
  revert htype hvalue
  fun_cases bindingWords decl.type decl.initializer with
  | case1 value => exact fun _ hvalue => .sign rfl (hvalue value rfl).legible
  | case2 type value =>
    exact fun htype hvalue => .sign rfl (htype.append (.sign rfl (hvalue value rfl).legible))
  | case3 type => exact fun htype _ => .sign rfl htype

theorem legible_body {body : List Stmt} (h : ∀ s ∈ body, Legible s.words) :
    Legible (bodyWords body) := by
  induction body with
  | nil => exact .nil
  | cons s body ih =>
    exact (h s List.mem_cons_self).append (ih fun t ht => h t (List.mem_cons_of_mem _ ht))

theorem legible_block {b : Block Stmt} (h : ∀ s ∈ b.body, Legible s.words) : Legible b.words := by
  obtain ⟨body, scope, span⟩ := b
  exact .sign rfl ((legible_body h).append (.sign rfl .nil))

theorem legible_else {b : Block Stmt} (h : ∀ s ∈ b.body, Legible s.words) :
    Legible b.elseWords := by
  obtain ⟨body, scope, span⟩ := b
  cases body with
  | nil => exact .nil
  | cons first rest =>
    rw [Block.elseWords]
    split
    · exact .reserved rfl (h first List.mem_cons_self)
    · have hrest := legible_body fun t ht => h t (List.mem_cons_of_mem first ht)
      exact .reserved rfl (.sign rfl ((h first List.mem_cons_self).append
        (hrest.append (.sign rfl .nil))))

theorem Stmt.WellFormed.legible {s : Stmt} (h : s.WellFormed) : Legible s.words := by
  induction h with
  | call called =>
    rw [Stmt.words]
    exact called.legible.append (.sign rfl .nil)
  | define defined => exact defined.legible
  | assign free assigned => exact .name free (.sign rfl (assigned.legible.append (.sign rfl .nil)))
  | @ret value _ returned =>
    cases value with
    | none => exact .reserved rfl (.sign rfl .nil)
    | some value => exact .reserved rfl ((returned value rfl).legible.append (.sign rfl .nil))
  | ifThenElse tested _ _ ihThen ihElse =>
    exact .reserved rfl
      (tested.legible.append ((legible_block ihThen).append (legible_else ihElse)))
  | whileDo tested _ ih => exact .reserved rfl (tested.legible.append (legible_block ih))

theorem FunDecl.WellFormed.legible {f : FunDecl} (h : f.WellFormed) : Legible f.words := by
  have hparameters : Legible (commaWords (f.parameters.map Parameter.words)) := by
    refine .commaWords (List.forall_mem_map.mpr fun parameter hmem => ?_)
    obtain ⟨hname, htype⟩ := h.parameters parameter hmem
    exact .name hname (.sign rfl (legible_bindingTy htype))
  have hbody : Legible f.body.words := legible_block fun s hs => (h.body s hs).legible
  exact .name h.free (.sign rfl (.sign rfl (hparameters.append
    (.sign rfl (.sign rfl ((legible_type h.result).append (.sign rfl hbody)))))))

/-- **Every word of a program that can be written can be read.** -/
theorem Program.WellFormed.legible {p : Program} (h : p.WellFormed) : Legible p.words :=
  (Legible.flatMap fun decl hdecl => (h.globals decl hdecl).legible).append
    (.flatMap fun f hf => (h.functions f hf).legible)

end TypedImp
