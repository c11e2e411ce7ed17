import TypedImp.Proofs.Printing.Parsed

/-!
# Printing and parsing

The trees that can be written are exactly those that parsing returns: what is written is read back,
and whatever is read can be written.  Places are forgotten on the way, since a program that is
written anew stands elsewhere.

* `print_parse_round_trip`: both directions at once.
-/

namespace TypedImp

/-- **Printing and parsing are inverse.**  A program that can be written, written with only the
parentheses that the precedences require, is cut into tokens and parsed without an error, and the
result is the program up to places.  Every program that parsing makes of the tokens of a text can be
written. -/
theorem print_parse_round_trip :
    (∀ p : Program, p.WellFormed → ∃ tokens p', tokenize p.text = .ok tokens ∧
      parse tokens = .ok p' ∧ p'.erase = p.erase) ∧
    ∀ (source : String) (tokens : List Token) (p : Program), tokenize source = .ok tokens →
      parse tokens = .ok p → p.WellFormed :=
  ⟨fun _ h => parse_text h, fun _ _ _ htokens h => wellFormed_of_parse htokens h⟩

/-- A program with the least integer, a decimal, a call of a call, operands that need parentheses,
and a chain of choices. -/
def shiftProgram : Program where
  globals :=
    [⟨"least", ⟨.deduced, false⟩,
      some (.number (.int32 Int32.minValue) "-2147483648" .unlocated), .unlocated⟩,
    ⟨"cells", ⟨.pointer .deduced, true⟩, some (.string "a + b" .unlocated), .unlocated⟩]
  functions :=
    [⟨"shift", [⟨"x", ⟨.int32, false⟩, .unlocated⟩,
        ⟨"y", ⟨.pointer (.named "Cell"), true⟩, .unlocated⟩], .float32,
      .unresolved
        [.call (.call (.name "make" .unlocated) [] .unlocated)
          [.binary .sub (.name "x" .unlocated)
            (.binary .sub (.name "y" .unlocated) (.number (.int32 2) "2" .unlocated) .unlocated)
            .unlocated,
          .unary .not (.bool true .unlocated) .unlocated] .unlocated .unlocated,
        .ifThenElse (.bool false .unlocated)
          (.unresolved [.assign "x" (.name "y" .unlocated) .unlocated] .unlocated)
          (.unresolved
            [.ifThenElse (.name "x" .unlocated) (.unresolved [] .unlocated)
              (.unresolved
                [.whileDo (.name "y" .unlocated) (.unresolved [.ret none .unlocated] .unlocated)
                  .unlocated]
                .unlocated)
              .unlocated]
            .unlocated)
          .unlocated,
        .ret (some (.binary .mul
          (.binary .add (.number (.float32 1.5) "1.5" .unlocated) (.name "x" .unlocated) .unlocated)
          (.unary .minus (.name "y" .unlocated) .unlocated) .unlocated)) .unlocated]
        .unlocated, .unlocated⟩]

theorem shiftProgram_wellFormed : shiftProgram.WellFormed := by
  have hx : (Expr.name "x" .unlocated).WellFormed := .name rfl
  have hy : (Expr.name "y" .unlocated).WellFormed := .name rfl
  have htwo : (Expr.number (.int32 2) "2" .unlocated).WellFormed :=
    .number (.inl ⟨rfl, by decide, rfl⟩)
  have hdecimal : (Expr.number (.float32 1.5) "1.5" .unlocated).WellFormed :=
    .number ⟨['1'], ['5'], rfl, rfl, rfl, rfl⟩
  have hleast : (Expr.number (.int32 Int32.minValue) "-2147483648" .unlocated).WellFormed :=
    .number (.inr ⟨rfl, "2147483648".toList, rfl, rfl, rfl⟩)
  have hmake : (Expr.call (.name "make" .unlocated) [] .unlocated).WellFormed :=
    .call (.name rfl) nofun
  refine ⟨List.forall_mem_cons.mpr ⟨⟨rfl, rfl, hleast.forall_mem_some⟩,
    List.forall_mem_singleton.mpr ⟨rfl, rfl, Expr.WellFormed.forall_mem_some (.string ?_)⟩⟩,
    List.forall_mem_singleton.mpr ⟨rfl, ?_, rfl, ?_, rfl⟩⟩
  · simp
  · exact List.forall_mem_cons.mpr ⟨⟨rfl, rfl⟩, List.forall_mem_singleton.mpr ⟨rfl, rfl⟩⟩
  · refine List.forall_mem_cons.mpr ⟨.call (.call hmake ?_) rfl, List.forall_mem_cons.mpr ⟨?_, ?_⟩⟩
    · exact List.forall_mem_cons.mpr ⟨.binary hx (.binary hy htwo),
        List.forall_mem_singleton.mpr (.unary .bool)⟩
    · refine .ifThenElse .bool (List.forall_mem_singleton.mpr (.assign rfl hy))
        (List.forall_mem_singleton.mpr (.ifThenElse hx nofun (List.forall_mem_singleton.mpr ?_)))
      exact .whileDo hy (List.forall_mem_singleton.mpr (.ret nofun))
    · refine List.forall_mem_singleton.mpr (.ret (Expr.WellFormed.forall_mem_some ?_))
      exact .binary (.binary hdecimal hx) (.unary hy)

/-- A program that can be written is read back, and what is read back can be written. -/
theorem shiftProgram_round_trip : shiftProgram.WellFormed ∧ ∃ tokens p',
    tokenize shiftProgram.text = .ok tokens ∧ parse tokens = .ok p' ∧
      p'.erase = shiftProgram.erase ∧ p'.WellFormed := by
  obtain ⟨tokens, p', htokens, hparse, herase⟩ :=
    print_parse_round_trip.1 shiftProgram shiftProgram_wellFormed
  exact ⟨shiftProgram_wellFormed, tokens, p', htokens, hparse, herase,
    print_parse_round_trip.2 shiftProgram.text tokens p' htokens hparse⟩

end TypedImp
