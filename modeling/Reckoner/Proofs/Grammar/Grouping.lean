import Reckoner.Proofs.Grammar.Phrase

/-!
Powers with their grouping written out. In a row of powers from the left the part before every
further `^` or `!` is put in parentheses, in a tower of powers from the right every exponent. Then no
power is left in which the order decides anything, so the phrase can be written as one of either
order, with the same tokens and the same outcome.
-/

namespace Reckoner

namespace Token

def isParenthesis (t : Token) : Bool := t.isOp "(" || t.isOp ")"

@[simp] theorem isParenthesis_op (symbol : String) :
    (op symbol).isParenthesis = (decide (symbol = "(") || decide (symbol = ")")) := by
  simp [isParenthesis, isOp]

/-- What is left of tokens without their parentheses. -/
def unparenthesized (ts : List Token) : List Token := ts.filter fun t => !t.isParenthesis

@[simp] theorem unparenthesized_nil : unparenthesized [] = [] := rfl

@[simp] theorem unparenthesized_append (ts ts' : List Token) :
    unparenthesized (ts ++ ts') = unparenthesized ts ++ unparenthesized ts' :=
  List.filter_append ..

@[simp] theorem unparenthesized_cons (t : Token) (ts : List Token) :
    unparenthesized (t :: ts) =
      if t.isParenthesis then unparenthesized ts else t :: unparenthesized ts := by
  cases h : t.isParenthesis <;> simp [unparenthesized, h]

end Token

namespace Phrase

variable {order : PowerOrder}

/-- A power in parentheses, as an operand. -/
def enclosed (p : Phrase order (.whole .power)) : Phrase order (.whole .primary) :=
  .group (.expression (.factor p (.done .products)) (.done .sums))

/-- Factorials before a row. -/
def before (links : Phrase order (.links .powers)) :
    Phrase order (.links .factorials) → Phrase order (.links .powers)
  | .done _ => links
  | .mark _ rest => .mark .factorial (links.before rest)

/-- An operand with its factorials, as a power in either order. -/
def marked : {order : PowerOrder} → Phrase order (.whole .primary) →
    Phrase order (.links .factorials) → Phrase order (.whole .power)
  | .fromLeft, base, marks => .powerLeft rfl base (before (.done .powers) marks)
  | .fromRight, base, marks => .powerRight rfl (.ground base marks)

/-- An operand with its factorials and one exponent, as a power in either order. -/
def raisedOnce : {order : PowerOrder} → Phrase order (.whole .primary) →
    Phrase order (.links .factorials) → Phrase order (.whole .primary) →
    Phrase order (.whole .power)
  | .fromLeft, base, marks, exponent =>
    .powerLeft rfl base (before (.link .raise exponent (.done .powers)) marks)
  | .fromRight, base, marks, exponent =>
    .powerRight rfl (.raised base marks (.ground exponent (.done .factorials)))

/-- A row behind a power that has been made already, and that is `part` when it is an operand. All of
it is put in parentheses before the next operator. -/
def row (part : Phrase order (.whole .primary)) (made : Phrase order (.whole .power)) :
    Phrase order (.links .powers) → Phrase order (.whole .power)
  | .done _ => made
  | .link .raise operand rest =>
    row (raisedOnce part (.done .factorials) operand).enclosed
      (raisedOnce part (.done .factorials) operand) rest
  | .mark _ rest =>
    row (marked part (.mark .factorialAlone (.done .factorials))).enclosed
      (marked part (.mark .factorialAlone (.done .factorials))) rest

/-- A tower with all that stands behind a `^` in parentheses. -/
def tower : Phrase order (.whole .powerRight) → Phrase order (.whole .power)
  | .ground base marks => marked base marks
  | .raised base marks exponent => raisedOnce base marks exponent.tower.enclosed

/-- The phrase with the grouping of its powers, at any depth, written out; it is one of the other
order as well. -/
def grouped (order' : PowerOrder) {category : Category} :
    Phrase order category → Phrase order' category
  | .done c => .done c
  | .link op operand rest => .link op (operand.grouped order') (rest.grouped order')
  | .mark m rest => .mark m (rest.grouped order')
  | .expression first rest => .expression (first.grouped order') (rest.grouped order')
  | .factor first rest => .factor (first.grouped order') (rest.grouped order')
  | .powerLeft _ first rest =>
    row (first.grouped order') (marked (first.grouped order') (.done .factorials))
      (rest.grouped order')
  | .powerRight _ tower => (tower.grouped order').tower
  | .ground base marks => .ground (base.grouped order') (marks.grouped order')
  | .raised base marks exponent =>
    .raised (base.grouped order') (marks.grouped order') (exponent.grouped order')
  | .negation operand => .negation (operand.grouped order')
  | .number x => .number x
  | .var name => .var name
  | .const name => .const name
  | .call function args => .call function (args.grouped order')
  | .group content => .group (content.grouped order')
  | .arguments function first rest =>
    .arguments function (first.grouped order') (rest.grouped order')

/-! ### The tokens -/

@[simp] theorem tokens_enclosed (p : Phrase order (.whole .power)) :
    p.enclosed.tokens = .op "(" :: (p.tokens ++ [.op ")"]) := by
  simp [enclosed, tokens]

theorem unparenthesized_enclosed (p : Phrase order (.whole .power)) :
    Token.unparenthesized p.enclosed.tokens = Token.unparenthesized p.tokens := by
  simp

theorem tokens_before (links : Phrase order (.links .powers)) :
    (marks : Phrase order (.links .factorials)) →
      (links.before marks).tokens = marks.tokens ++ links.tokens
  | .done _ => by simp [before, tokens]
  | .mark _ rest => by simp [before, tokens, tokens_before links rest]

@[simp] theorem tokens_marked (base : Phrase order (.whole .primary))
    (marks : Phrase order (.links .factorials)) :
    (marked base marks).tokens = base.tokens ++ marks.tokens := by
  cases order with
  | fromLeft => simp [marked, tokens, tokens_before]
  | fromRight => rfl

@[simp] theorem tokens_raisedOnce (base : Phrase order (.whole .primary))
    (marks : Phrase order (.links .factorials)) (exponent : Phrase order (.whole .primary)) :
    (raisedOnce base marks exponent).tokens =
      base.tokens ++ (marks.tokens ++ .op "^" :: exponent.tokens) := by
  cases order <;> simp [raisedOnce, tokens, tokens_before, Chain.Operator.token]

/-- The phrase has the same tokens for both orders; so has the power that a row or a tower becomes. -/
def GroupedAlike : {category : Category} → Phrase order category → Prop
  | .links .powers, p =>
    ∀ ⦃part part' made made'⦄, part.tokens = part'.tokens → made.tokens = made'.tokens →
      (row part made (p.grouped .fromLeft)).tokens =
        (row part' made' (p.grouped .fromRight)).tokens
  | .whole .powerRight, p =>
    (p.grouped .fromLeft).tower.tokens = (p.grouped .fromRight).tower.tokens
  | _, p => (p.grouped .fromLeft).tokens = (p.grouped .fromRight).tokens

theorem groupedAlike {category : Category} (p : Phrase order category) : p.GroupedAlike := by
  induction p with
  | done c => cases c <;> simp_all [GroupedAlike, grouped, tokens, row]
  | link op operand rest ihOperand ihRest =>
      cases op with
      | raise =>
          intro part part' made made' hpart _
          have hoperand : (operand.grouped .fromLeft).tokens =
            (operand.grouped .fromRight).tokens := ihOperand
          rw [grouped, grouped, row, row]
          refine ihRest ?_ ?_ <;> simp [tokens, hpart, hoperand]
      | _ => simp_all [GroupedAlike, grouped, tokens]
  | mark m rest ih =>
      cases m with
      | factorial =>
          intro part part' made made' hpart _
          rw [grouped, grouped, row, row]
          refine ih ?_ ?_ <;> simp [tokens, hpart]
      | factorialAlone => simp_all [GroupedAlike, grouped, tokens]
  | powerLeft h first rest ihFirst ihRest =>
      have hfirst : (first.grouped .fromLeft).tokens = (first.grouped .fromRight).tokens := ihFirst
      exact ihRest hfirst (by simp [tokens, hfirst])
  | _ => simp_all [GroupedAlike, grouped, tokens, tower]

/-- The tokens of the grouped phrase do not depend on the order that it is then read in. -/
theorem tokens_grouped (p : Phrase order (.whole .expression)) :
    (p.grouped .fromLeft).tokens = (p.grouped .fromRight).tokens :=
  p.groupedAlike

/-- Only parentheses are added to a row, -/
theorem unparenthesized_row (links : Phrase order (.links .powers))
    {part : Phrase order (.whole .primary)} {made : Phrase order (.whole .power)}
    (h : Token.unparenthesized part.tokens = Token.unparenthesized made.tokens) :
    Token.unparenthesized (row part made links).tokens =
      Token.unparenthesized made.tokens ++ Token.unparenthesized links.tokens := by
  match links with
  | .done _ => simp [row, tokens]
  | .link .raise operand rest =>
    rw [row, unparenthesized_row rest (unparenthesized_enclosed _)]
    simp [tokens, h, Chain.Operator.token]
  | .mark .factorial rest =>
    rw [row, unparenthesized_row rest (unparenthesized_enclosed _)]
    simp [tokens, h, Chain.markToken]

/-- and to a tower. -/
theorem unparenthesized_tower : (p : Phrase order (.whole .powerRight)) →
    Token.unparenthesized p.tower.tokens = Token.unparenthesized p.tokens
  | .ground base marks => by rw [tower, tokens_marked, tokens]
  | .raised base marks exponent => by
    simp [tower, tokens, unparenthesized_tower exponent]

/-- Writing out the grouping of a phrase adds parentheses and nothing else. -/
theorem unparenthesized_grouped (order' : PowerOrder) {category : Category}
    (p : Phrase order category) :
    Token.unparenthesized (p.grouped order').tokens = Token.unparenthesized p.tokens := by
  induction p with
  | powerLeft h first rest ihFirst ihRest =>
      have hfirst : Token.unparenthesized (first.grouped order').tokens =
          Token.unparenthesized (marked (first.grouped order') (.done .factorials)).tokens := by
        simp [tokens]
      rw [grouped, unparenthesized_row _ hfirst, ← hfirst, ihFirst, ihRest, tokens,
        Token.unparenthesized_append]
  | powerRight h tower ih => rw [grouped, unparenthesized_tower, ih, tokens]
  | _ => simp_all [grouped, tokens]

/-! ### The outcome -/

section Outcome

variable [Elementary] (scope : Scope)

@[simp] theorem outcome_enclosed (p : Phrase order (.whole .power)) :
    p.enclosed.outcome scope = p.outcome scope := by
  simp [enclosed, outcome]

theorem outcome_before (links : Phrase order (.links .powers)) (a : Float) :
    (marks : Phrase order (.links .factorials)) →
      (links.before marks).outcome scope a = marks.outcome scope a >>= links.outcome scope
  | .done _ => by simp [before, outcome]
  | .mark .factorialAlone rest => by
    have hrest (b : Float) := outcome_before links b rest
    simp only [before, outcome, bind_assoc, hrest]
    rfl

theorem outcome_marked (base : Phrase order (.whole .primary))
    (marks : Phrase order (.links .factorials)) :
    (marked base marks).outcome scope = base.outcome scope >>= marks.outcome scope := by
  cases order with
  | fromLeft =>
      simp only [marked, outcome, outcome_before]
      exact bind_congr fun b => bind_pure _
  | fromRight => simp only [marked, outcome]

theorem outcome_raisedOnce (base : Phrase order (.whole .primary))
    (marks : Phrase order (.links .factorials)) (exponent : Phrase order (.whole .primary)) :
    (raisedOnce base marks exponent).outcome scope =
      base.outcome scope >>= marks.outcome scope >>= fun b =>
        exponent.outcome scope >>= fun e => Halt.raising (Arithmetic.power b e) := by
  cases order with
  | fromLeft =>
      simp only [raisedOnce, outcome, outcome_before, Chain.Operator.apply, bind_pure, bind_assoc]
  | fromRight =>
      rw [raisedOnce, outcome, outcome_raised]
      refine bind_congr fun b => ?_
      simp only [outcome, bind_pure]

/-- A row goes on from the value of the power that has been made. -/
theorem outcome_row (links : Phrase order (.links .powers)) {part : Phrase order (.whole .primary)}
    {made : Phrase order (.whole .power)} (h : part.outcome scope = made.outcome scope) :
    (row part made links).outcome scope = made.outcome scope >>= links.outcome scope := by
  match links with
  | .done _ => simp [row, outcome]
  | .link .raise operand rest =>
    rw [row, outcome_row rest (outcome_enclosed scope _), outcome_raisedOnce, h]
    simp only [outcome, pure_bind, bind_assoc]
    rfl
  | .mark .factorial rest =>
    rw [row, outcome_row rest (outcome_enclosed scope _), outcome_marked, h]
    simp [outcome, Chain.Mark.apply]

theorem outcome_tower : (p : Phrase order (.whole .powerRight)) →
    p.tower.outcome scope = p.outcome scope
  | .ground base marks => by rw [tower, outcome_marked, outcome]
  | .raised base marks exponent => by
    rw [tower, outcome_raisedOnce, outcome_enclosed, outcome_tower exponent, outcome_raised]

/-- Writing out the grouping of a phrase does not change what it comes to. -/
theorem outcome_grouped (order' : PowerOrder) {category : Category} (p : Phrase order category) :
    (p.grouped order').outcome scope = p.outcome scope := by
  induction p with
  | powerLeft h first rest ihFirst ihRest =>
      have hfirst : (first.grouped order').outcome scope =
          (marked (first.grouped order') (.done .factorials)).outcome scope := by
        simp [outcome_marked, outcome]
      rw [grouped, outcome_row scope _ hfirst, ← hfirst, ihFirst, ihRest, outcome]
  | powerRight h tower ih => rw [grouped, outcome_tower, ih, outcome]
  | _ => simp_all only [grouped, outcome]

end Outcome

end Phrase
end Reckoner
