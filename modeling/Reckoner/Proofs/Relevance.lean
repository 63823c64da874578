import Reckoner.Proofs.Descent.Agreement
import Reckoner.Proofs.Descent.Whole
import Reckoner.Proofs.Token.Mention
import Reckoner.Proofs.Token.Name
import Reckoner.Session

/-!
What has a say in an evaluation. Of all that a scope holds it is the meaning of the names that scanning
the expression comes to; so other variables do not matter, and neither do variables with the name of
a function or of a constant.
-/

namespace Reckoner

variable {scope scope' : Scope}

/-- Evaluations end alike in scopes where the names that scanning comes to mean the same. -/
theorem evaluate_congr [Elementary] {text : String}
    (h : ∀ name, Mentions scope name text.toList → scope.SameAt scope' name) (limits : Limits)
    (order : PowerOrder) : evaluate limits scope order text = evaluate limits scope' order text := by
  have hscan := Token.scan_congr (fun name hname => (h name hname).role) limits.length
  unfold evaluate
  rw [← hscan]
  cases htokens : Token.scan scope limits.length text with
  | error fault => rfl
  | ok tokens =>
      have hreading := wholeExpression_same order limits.frames (Token.agreesOn_of_scan htokens h)
      simp only [hreading]

namespace Phrase

variable {order : PowerOrder} (p : Phrase order (.whole .primary))

/-- The expression that is a single primary. -/
def ofPrimary : Phrase order (.whole .expression) :=
  .expression
    (.factor
      (match order with
        | .fromLeft => .powerLeft rfl p (.done .powers)
        | .fromRight => .powerRight rfl (.ground p (.done .factorials)))
      (.done .products))
    (.done .sums)

theorem tokens_ofPrimary : p.ofPrimary.tokens = p.tokens := by
  cases order <;> simp [ofPrimary, tokens]

theorem frames_ofPrimary : p.ofPrimary.frames ≤ p.frames + 5 := by
  cases order <;> simp [ofPrimary, frames]

theorem outcome_ofPrimary [Elementary] (scope : Scope) :
    p.ofPrimary.outcome scope = p.outcome scope := by
  cases order <;> simp [ofPrimary, outcome]

end Phrase

/-- A name that stands for a variable has its value; six frames are enough for it. -/
theorem evaluate_variable [Elementary] {scope : Scope} {name : String}
    (hname : Text.isName name.toList) (hrole : scope.role? name = some .var) {x : Float} (hx : scope.vars.get? name = some x)
    {limits : Limits} (hlength : (name.length : Int) ≤ limits.length) (hframes : 6 ≤ limits.frames)
    (order : PowerOrder) : (evaluate limits scope order name).result = .ok x := by
  have hscan : Token.scan scope limits.length name = .ok [.var name, .ending] :=
    Token.scan_name hname hrole hlength
  let primary : Phrase order (.whole .primary) := .var name
  have hprimary : primary.ofPrimary.frames ≤ limits.frames :=
    Nat.le_trans primary.frames_ofPrimary hframes
  have houtcome : primary.outcome scope = .ok x := by
    simp [primary, Phrase.outcome, hx]
  have hgives := (wholeExpression_gives scope primary.ofPrimary hprimary []).result_eq
  rw [Phrase.outcome_ofPrimary, Phrase.tokens_ofPrimary, houtcome] at hgives
  unfold evaluate
  rw [hscan]
  exact hgives

theorem Evaluator.evaluate_congr {e : Evaluator}
    (h : ∀ name, Mentions scope name e.expression.toList → scope.SameAt scope' name)
    (limits : Limits) : e.evaluate limits scope = e.evaluate limits scope' := by
  unfold evaluate
  rw [Reckoner.evaluate_congr h]

/-- What an evaluator comes to, and what it remembers of it, depends on no variables but those that
scanning its expression comes to and that are neither functions nor constants. So a variable with
the name of a function or of a constant, or with a name that is no identifier, changes nothing. -/
theorem Evaluator.evaluate_ignores_other_variables (limits : Limits) (scope : Scope) (e : Evaluator) :
    (∀ vars : Table Float,
      (∀ name, Mentions scope name e.expression.toList → Builtin.ofName? name = none →
        scope.constants.get? name = none → scope.vars.get? name = vars.get? name) →
      e.evaluate limits scope = e.evaluate limits { scope with vars }) ∧
    ∀ name x, (Builtin.ofName? name).isSome ∨ (scope.constants.get? name).isSome ∨
        ¬Text.isName name.toList →
      e.evaluate limits (scope.setVariable name x) = e.evaluate limits scope := by
  have hvars : ∀ vars : Table Float,
      (∀ name, Mentions scope name e.expression.toList → Builtin.ofName? name = none →
        scope.constants.get? name = none → scope.vars.get? name = vars.get? name) →
      e.evaluate limits scope = e.evaluate limits { scope with vars } := by
    intro vars h
    have hsame : ∀ name, Mentions scope name e.expression.toList →
        scope.SameAt { scope with vars } name := by
      intro name hname
      apply Scope.sameAt_of_vars
      · rfl
      · exact h name hname
    exact evaluate_congr hsame limits
  refine ⟨hvars, fun name x hother => (hvars _ fun n hn hfunction hconstant => ?_).symm⟩
  -- the name is none that is come to as a variable
  have hne : n ≠ name := by
    rintro rfl
    rcases hother with hsome | hsome | hname
    · simp [hfunction] at hsome
    · simp [hconstant] at hsome
    · exact hname hn.isName
  rw [Table.get?_insert, if_neg hne]

/-- A variable named as the constant pi is bound, and the constant is found. -/
theorem Evaluator.evaluate_ignores_bound_pi :
    (Scope.builtin.constants.get? "pi").isSome ∧
      (Evaluator.evaluate ⟨"2*pi", .fromLeft, [], 0⟩ ⟨100, 1000⟩ (Scope.builtin.setVariable "pi" 3)).2 =
        .ok (2 * Binary64.pi) := by
  have hpi : (Scope.builtin.constants.get? "pi").isSome := by with_unfolding_all rfl
  refine ⟨hpi, ?_⟩
  rw [(evaluate_ignores_other_variables ⟨100, 1000⟩ .builtin ⟨"2*pi", .fromLeft, [], 0⟩).2 "pi" 3
    (.inr (.inl hpi))]
  with_unfolding_all rfl

end Reckoner
