import Reckoner.Proofs.Descent.Flow
import Reckoner.Proofs.Grammar.Grouping

/-!
The order of powers where their grouping is written out. What an expression comes to in one order it
comes to in both, once parentheses stand where that order would have grouped it.
-/

namespace Reckoner

/-- What tokens come to, frames aside: with enough of them the outcome, with fewer the outcome or too
deep a nesting. -/
structure ComesTo [Elementary] (scope : Scope) (order : PowerOrder) (ts : List Token)
    (outcome : Except Halt Float) : Prop where
  shallow : outcome ≠ .error .tooDeep
  exists_enough : ∃ enough, ∀ frames, enough ≤ frames →
    ((wholeExpression scope order frames).start ts).result = outcome
  tooDeep_or : ∀ frames, ((wholeExpression scope order frames).start ts).result = .error .tooDeep ∨
    ((wholeExpression scope order frames).start ts).result = outcome

variable {scope : Scope} {order : PowerOrder}

/-- A sentence comes to the outcome of its tree. -/
theorem comesTo_tokens [Elementary] (scope : Scope) (tree : Phrase order (.whole .expression)) :
    ComesTo scope order (tree.tokens ++ [.ending]) (tree.outcome scope) where
  shallow := by
    have hfits := wholeExpression_fits scope
      (Nat.le_refl (Level.expression.height order + Token.framesOf order (tree.tokens ++ [.ending])))
    rcases wholeExpression_tooDeep_or_outcome scope tree _ [] with hdeep | houtcome
    · exact absurd hdeep hfits
    · exact houtcome ▸ hfits
  exists_enough :=
    ⟨tree.frames, fun _ hframes => (wholeExpression_gives scope tree hframes []).result_eq⟩
  tooDeep_or frames := wholeExpression_tooDeep_or_outcome scope tree frames []

/-- Written with the grouping that one order of powers gives it, a sentence comes to the same in both
orders as it does in that order without. -/
theorem wholeExpression_grouped [Elementary] (scope : Scope) {ts : List Token}
    (h : Sentence order ts) (order' : PowerOrder) :
    ∃ tree : Phrase order' (.whole .expression),
      (ts = tree.tokens ++ [.ending] ∧
        ∀ other : Phrase order' (.whole .expression),
          ts = other.tokens ++ [.ending] → other = tree) ∧
      Token.unparenthesized (tree.grouped .fromLeft).tokens =
        Token.unparenthesized tree.tokens ∧
      ∃ outcome, ComesTo scope order' ts outcome ∧
        ∀ reading, ComesTo scope reading ((tree.grouped .fromLeft).tokens ++ [.ending]) outcome := by
  obtain ⟨tree, rfl⟩ := h.reordered order'
  refine ⟨tree, ⟨rfl, fun other hother => ?_⟩, tree.unparenthesized_grouped .fromLeft,
    tree.outcome scope, comesTo_tokens scope tree, fun reading => ?_⟩
  · exact Phrase.tokens_injective (List.append_cancel_right hother).symm
  · have hgrouped := comesTo_tokens scope (tree.grouped reading)
    rw [Phrase.outcome_grouped] at hgrouped
    cases reading with
    | fromLeft => exact hgrouped
    | fromRight =>
        rw [Phrase.tokens_grouped]
        exact hgrouped

/-- The factorial is that of the power from the left, and that of the exponent from the right. -/
theorem wholeExpression_grouped_factorial :
    Sentence .fromLeft [.number 2, .op "^", .number 3, .op "!", .ending] ∧
    (∃ outcome,
      ComesTo Scope.builtin .fromLeft [.number 2, .op "^", .number 3, .op "!", .ending] outcome ∧
      ∀ reading, ComesTo Scope.builtin reading
        [.op "(", .number 2, .op "^", .number 3, .op ")", .op "!", .ending] outcome) ∧
    ∃ outcome,
      ComesTo Scope.builtin .fromRight [.number 2, .op "^", .number 3, .op "!", .ending] outcome ∧
      ∀ reading, ComesTo Scope.builtin reading
        [.number 2, .op "^", .op "(", .number 3, .op "!", .op ")", .ending] outcome := by
  let left : Phrase .fromLeft (.whole .expression) :=
    .expression (.factor (.powerLeft rfl (.number 2)
      (.link .raise (.number 3) (.mark .factorial (.done _)))) (.done _)) (.done _)
  let right : Phrase .fromRight (.whole .expression) :=
    .expression (.factor (.powerRight rfl (.raised (.number 2) (.done _)
      (.ground (.number 3) (.mark .factorialAlone (.done _))))) (.done _)) (.done _)
  have hsentence : Sentence .fromLeft [.number 2, .op "^", .number 3, .op "!", .ending] :=
    ⟨left, rfl⟩
  obtain ⟨tree, ⟨-, hunique⟩, -, houtcome⟩ :=
    wholeExpression_grouped Scope.builtin hsentence .fromLeft
  obtain ⟨tree', ⟨-, hunique'⟩, -, houtcome'⟩ :=
    wholeExpression_grouped Scope.builtin hsentence .fromRight
  have htokens : (left.grouped .fromLeft).tokens ++ [.ending] =
      [.op "(", .number 2, .op "^", .number 3, .op ")", .op "!", .ending] := by
    simp [left, Phrase.grouped, Phrase.row, Phrase.tokens, Chain.markToken]
  have htokens' : (right.grouped .fromLeft).tokens ++ [.ending] =
      [.number 2, .op "^", .op "(", .number 3, .op "!", .op ")", .ending] := by
    simp [right, Phrase.grouped, Phrase.tower, Phrase.tokens, Chain.markToken]
  rw [← hunique left rfl, htokens] at houtcome
  rw [← hunique' right rfl, htokens'] at houtcome'
  exact ⟨hsentence, houtcome, houtcome'⟩

end Reckoner
