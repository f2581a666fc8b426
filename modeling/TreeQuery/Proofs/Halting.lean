import TreeQuery.Proofs.Expr.Charged
import TreeQuery.Proofs.Selector.Charged

/-!
Both front ends halt on every text. Every call and every round of a loop is a step, and the steps
are paid by the tokens that are behind: for an expression, a token pays for the way down through all
levels of operators and back. So a budget that grows with the number of tokens is never used up.
-/
namespace TreeQuery

/-- With a budget of one more than there are characters, the selector lexer ends with its tokens or
an error; with twelve for each token, the selector parser does, and it never gets beyond its tokens.
With one more than there are tokens, the expression lexer ends; with twenty-five for each token and
the end of the text, the expression parser does. It has drawn one token at most beyond the current
one at any time, and the tokens that were the current one pay for all steps. -/
theorem frontEnds_halt (text : String) :
    (∀ budget ≥ text.toList.length + 1,
        ∃ s, Selector.Lexer.run budget text = some (Selector.tokenize text, s) ∧
          s.steps ≤ text.toList.length + 1) ∧
      (∀ tokens, Selector.tokenize text = .ok tokens →
        Selector.Ended tokens ∧ tokens.length ≤ text.toList.length + 1 ∧
          ∀ budget ≥ 12 * tokens.length,
            ∃ s, Selector.Cursor.run budget tokens = some (Selector.parse text, s) ∧
              s.state.offset < tokens.length ∧ s.steps ≤ 12 * (s.state.offset + 1)) ∧
      (∀ budget ≥ (Expr.Tokens.ofText text).ahead.length + 1,
        ∃ s, Expr.Lexer.run budget text = some ((Expr.Tokens.ofText text).toList, s) ∧
          s.steps ≤ (Expr.Tokens.ofText text).ahead.length + 1) ∧
      ∀ budget ≥ 25 * ((Expr.Tokens.ofText text).ahead.length + 1),
        ∃ s, Expr.Reader.run budget text = some (Expr.parse text, s) ∧
          s.state.beyond ≤ 1 ∧ s.state.drawn ≤ s.passed + 2 ∧
            s.passed ≤ (Expr.Tokens.ofText text).ahead.length ∧ s.steps ≤ 25 * (s.passed + 1) := by
  refine ⟨fun budget hbudget => ?_, fun tokens htokens => ?_, fun budget hbudget => ?_,
    fun budget hbudget => ?_⟩
  · have hlexer := (Selector.Lexer.halts_run hbudget).mono fun _ s _ hgives =>
      show _ ∧ s.steps ≤ text.toList.length + 1 from ⟨hgives.1, hgives.2.2.2⟩
    exact hlexer.exists_outcome
  · obtain ⟨hended, hlength⟩ := Selector.ended_tokenize htokens
    refine ⟨hended, hlength, fun budget hbudget => ?_⟩
    obtain ⟨front, place, rfl, hfront⟩ := hended
    rw [List.length_append, List.length_singleton] at hbudget ⊢
    obtain ⟨s, hrun, hfailed⟩ := (Selector.Cursor.halts_run htokens hfront hbudget).exists_outcome
    obtain ⟨hoffset, hwithin, hsteps⟩ := hfailed
    exact ⟨s, hrun, by omega, hoffset ▸ hsteps⟩
  · exact (Expr.Lexer.halts_run hbudget).exists_outcome
  · obtain ⟨s, hrun, hfailed⟩ := (Expr.halts_whole hbudget).exists_outcome
    exact ⟨s, hrun, hfailed.beyond, hfailed.drawn, hfailed.passed, hfailed.steps⟩

end TreeQuery
