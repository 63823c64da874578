import Reckoner.Proofs.Descent.Whole

/-!
Substitution. To bind a name to the value of an expression is to write the expression, in
parentheses, wherever the name stands as a variable. On trees this is an equation of outcomes; the
reader follows because it reads the tokens of a tree as the tree.
-/

namespace Reckoner

/-- The tokens with a variable replaced by others in parentheses. -/
def Token.substitute (name : String) (e ts : List Token) : List Token :=
  ts.flatMap fun t => if t = .var name then .op "(" :: (e ++ [.op ")"]) else [t]

namespace Token

variable (name : String) (e : List Token)

@[simp] theorem substitute_nil : substitute name e [] = [] := rfl

@[simp] theorem substitute_append (ts ts' : List Token) :
    substitute name e (ts ++ ts') = substitute name e ts ++ substitute name e ts' :=
  List.flatMap_append

theorem substitute_cons_var (ts : List Token) :
    substitute name e (.var name :: ts) =
      .op "(" :: (e ++ [.op ")"]) ++ substitute name e ts := by
  simp [substitute]

theorem substitute_cons_of_ne {t : Token} (h : t ≠ .var name) (ts : List Token) :
    substitute name e (t :: ts) = t :: substitute name e ts := by
  simp [substitute, h]

end Token

namespace Phrase

variable {order : PowerOrder} {scope : Scope}

/-- The phrase with a variable replaced by an expression in parentheses. -/
def substitute {category : Category} (p : Phrase order category) (name : String)
    (e : Phrase order (.whole .expression)) : Phrase order category :=
  match p with
  | .done c => .done c
  | .link op operand rest => .link op (operand.substitute name e) (rest.substitute name e)
  | .mark m rest => .mark m (rest.substitute name e)
  | .expression first rest => .expression (first.substitute name e) (rest.substitute name e)
  | .factor first rest => .factor (first.substitute name e) (rest.substitute name e)
  | .powerLeft h first rest => .powerLeft h (first.substitute name e) (rest.substitute name e)
  | .powerRight h tower => .powerRight h (tower.substitute name e)
  | .ground base marks => .ground (base.substitute name e) (marks.substitute name e)
  | .raised base marks exponent =>
    .raised (base.substitute name e) (marks.substitute name e) (exponent.substitute name e)
  | .negation operand => .negation (operand.substitute name e)
  | .number x => .number x
  | .var n => if n = name then .group e else .var n
  | .const n => .const n
  | .call function args => .call function (args.substitute name e)
  | .group content => .group (content.substitute name e)
  | .arguments function first rest =>
    .arguments function (first.substitute name e) (rest.substitute name e)

variable (name : String) (e : Phrase order (.whole .expression))

theorem tokens_substitute {category : Category} (p : Phrase order category) :
    (p.substitute name e).tokens = Token.substitute name e.tokens p.tokens := by
  induction p with
  | var n =>
      by_cases h : n = name
      · subst h
        simp [substitute, tokens, Token.substitute_cons_var]
      · rw [substitute, if_neg h, tokens, Token.substitute_cons_of_ne _ _ (by simp [h])]
        rfl
  | link op operand rest ihOperand ihRest =>
      have hop : op.token ≠ .var name := by cases op <;> simp [Chain.Operator.token]
      simp only [substitute, tokens, ihOperand, ihRest, Token.substitute_cons_of_ne _ _ hop,
        Token.substitute_append]
  | _ =>
      simp_all only [substitute, tokens, Token.substitute_append, Token.substitute_nil,
        Token.substitute_cons_of_ne, Chain.markToken, ne_eq, reduceCtorEq, not_false_eq_true]

/-- The outcome of a phrase where the name has the value of the expression. -/
theorem outcome_substitute [Elementary] {name : String} {e : Phrase order (.whole .expression)}
    {v : Float}
    (he : e.outcome scope = .ok v) {category : Category} (p : Phrase order category) :
    (p.substitute name e).outcome scope = p.outcome (scope.setVariable name v) := by
  induction p with
  | var n =>
      by_cases h : n = name
      · subst h
        simp [substitute, outcome, he]
      · simp [substitute, outcome, h]
  | _ => simp_all only [substitute, outcome, Scope.constants_setVariable]

end Phrase

variable {scope : Scope} {order : PowerOrder}

/-- Substitution. If an expression `e` has the value `v`, and tokens `f` have the value `w` where the
name is bound to `v`, then `f` with `(e)` for the name has the value `w` as well, as long as there
are frames for it. -/
theorem wholeExpression_substitute [Elementary] {name : String} {e f : List Token} {v w : Float}
    {m n : Nat}
    (hending : .ending ∉ e)
    (he : ((wholeExpression scope order m).start (e ++ [.ending])).result = .ok v)
    (hf : ((wholeExpression (scope.setVariable name v) order n).start f).result = .ok w) :
    (∃ enough, ∀ frames, enough ≤ frames →
      ((wholeExpression scope order frames).start (Token.substitute name e f)).result = .ok w) ∧
    ∀ frames,
      ((wholeExpression scope order frames).start (Token.substitute name e f)).result =
          .error .tooDeep ∨
        ((wholeExpression scope order frames).start (Token.substitute name e f)).result =
          .ok w := by
  obtain ⟨inner, _, hinner, hv⟩ := exists_tree_of_result he
  obtain ⟨rfl, -, -⟩ := (List.append_cons_inj_of_notMem hending List.not_mem_nil).1 hinner
  obtain ⟨outer, behind, rfl, hw⟩ := exists_tree_of_result hf
  -- the tree of the substituted tokens, and what it comes to
  have htokens : Token.substitute name inner.tokens (outer.tokens ++ .ending :: behind) =
      (outer.substitute name inner).tokens ++
        .ending :: Token.substitute name inner.tokens behind := by
    rw [Token.substitute_append, Phrase.tokens_substitute,
      Token.substitute_cons_of_ne _ _ (by simp)]
  have houtcome : (outer.substitute name inner).outcome scope = .ok w :=
    (Phrase.outcome_substitute hv outer).trans hw
  rw [htokens]
  refine ⟨⟨(outer.substitute name inner).frames, fun frames hframes => ?_⟩, fun frames => ?_⟩
  · exact (wholeExpression_gives scope _ hframes _).result_eq.trans houtcome
  · rw [← houtcome]
    exact wholeExpression_tooDeep_or_outcome scope _ frames _

/-- The difference stays one operand, of the minus and of the product. -/
theorem wholeExpression_substitute_difference :
    (.ending ∉ [Token.number 1, .op "-", .number 3] ∧
      ((wholeExpression Scope.builtin .fromRight 10).start
        [.number 1, .op "-", .number 3, .ending]).result = .ok (-2) ∧
      ((wholeExpression (Scope.builtin.setVariable "x" (-2)) .fromRight 10).start
        [.op "-", .var "x", .op "*", .var "x", .ending]).result = .ok (-4)) ∧
    ∃ enough, ∀ frames, enough ≤ frames →
      ((wholeExpression Scope.builtin .fromRight frames).start
        [.op "-", .op "(", .number 1, .op "-", .number 3, .op ")", .op "*",
          .op "(", .number 1, .op "-", .number 3, .op ")", .ending]).result = .ok (-4) := by
  have hending : .ending ∉ [Token.number 1, .op "-", .number 3] := by simp
  have he : ((wholeExpression Scope.builtin .fromRight 10).start
      [.number 1, .op "-", .number 3, .ending]).result = .ok (-2) := by
    with_unfolding_all rfl
  have hf : ((wholeExpression (Scope.builtin.setVariable "x" (-2)) .fromRight 10).start
      [.op "-", .var "x", .op "*", .var "x", .ending]).result = .ok (-4) := by
    with_unfolding_all rfl
  exact ⟨⟨hending, he, hf⟩, (wholeExpression_substitute hending he hf).1⟩

end Reckoner
