import Reckoner.Proofs.Grammar.Phrase

/-!
The two orders of powers have the same phrases. A power from the left is a row of operands with `^`
and `!` between them, one from the right a tower of exponents; written out they are the same tokens,
so one can be taken apart and put together as the other.
-/

namespace Reckoner.Phrase

variable {order : PowerOrder}

/-- What stands behind the first operand of a row: its factorials, and perhaps an exponent. -/
theorem exists_marks : (links : Phrase order (.links .powers)) →
    ∃ marks : Phrase order (.links .factorials), links.tokens = marks.tokens ∨
      ∃ exponent : Phrase order (.whole .powerRight),
        links.tokens = marks.tokens ++ .op "^" :: exponent.tokens
  | .done _ => ⟨.done .factorials, .inl rfl⟩
  | .mark _ rest => by
    obtain ⟨marks, hmarks⟩ := rest.exists_marks
    refine ⟨.mark .factorialAlone marks, ?_⟩
    rcases hmarks with hmarks | ⟨exponent, hexponent⟩
    · left
      simp only [tokens, hmarks]
    · right
      refine ⟨exponent, ?_⟩
      simp only [tokens, hexponent, List.cons_append]
  | .link .raise operand rest => by
    obtain ⟨marks, hmarks⟩ := rest.exists_marks
    refine ⟨.done .factorials, .inr ?_⟩
    rcases hmarks with hmarks | ⟨exponent, hexponent⟩
    · refine ⟨.ground operand marks, ?_⟩
      simp only [tokens, hmarks, List.nil_append]
      rfl
    · refine ⟨.raised operand marks exponent, ?_⟩
      simp only [tokens, hexponent, List.nil_append]
      rfl

/-- Factorials before a row. -/
theorem exists_marked (links : Phrase order (.links .powers)) :
    (marks : Phrase order (.links .factorials)) →
      ∃ marked : Phrase order (.links .powers), marked.tokens = marks.tokens ++ links.tokens
  | .done _ => ⟨links, rfl⟩
  | .mark _ rest => by
    obtain ⟨marked, hmarked⟩ := exists_marked links rest
    refine ⟨.mark .factorial marked, ?_⟩
    simp only [tokens, hmarked, List.cons_append]

/-- The operands of a tower as a row. -/
theorem exists_row : (tower : Phrase order (.whole .powerRight)) →
    ∃ (first : Phrase order (.whole .primary)) (links : Phrase order (.links .powers)),
      tower.tokens = first.tokens ++ links.tokens
  | .ground base marks => by
    obtain ⟨links, hlinks⟩ := exists_marked (.done .powers) marks
    refine ⟨base, links, ?_⟩
    simp only [tokens, hlinks, List.append_nil]
  | .raised base marks exponent => by
    obtain ⟨operand, rest, hexponent⟩ := exponent.exists_row
    obtain ⟨links, hlinks⟩ := exists_marked (.link .raise operand rest) marks
    refine ⟨base, links, ?_⟩
    simp only [tokens, hlinks, hexponent]
    rfl

/-- A row is a power in either order. -/
theorem exists_power (first : Phrase order (.whole .primary))
    (links : Phrase order (.links .powers)) :
    ∃ power : Phrase order (.whole .power), power.tokens = first.tokens ++ links.tokens := by
  cases order with
  | fromLeft => exact ⟨.powerLeft rfl first links, rfl⟩
  | fromRight =>
      obtain ⟨marks, hmarks | ⟨exponent, hexponent⟩⟩ := links.exists_marks
      · refine ⟨.powerRight rfl (.ground first marks), ?_⟩
        simp only [tokens, hmarks]
      · refine ⟨.powerRight rfl (.raised first marks exponent), ?_⟩
        simp only [tokens, hexponent]

/-- The tokens of a phrase are those of a phrase in the other order. -/
theorem exists_reordered (order' : PowerOrder) {category : Category} (p : Phrase order category) :
    ∃ q : Phrase order' category, q.tokens = p.tokens := by
  induction p with
  | done c => exact ⟨.done c, rfl⟩
  | link op operand rest ihOperand ihRest =>
      obtain ⟨operand', hoperand⟩ := ihOperand
      obtain ⟨rest', hrest⟩ := ihRest
      exact ⟨.link op operand' rest', by simp only [tokens, hoperand, hrest]⟩
  | mark m rest ih =>
      obtain ⟨rest', hrest⟩ := ih
      exact ⟨.mark m rest', by simp only [tokens, hrest]⟩
  | expression first rest ihFirst ihRest =>
      obtain ⟨first', hfirst⟩ := ihFirst
      obtain ⟨rest', hrest⟩ := ihRest
      exact ⟨.expression first' rest', by simp only [tokens, hfirst, hrest]⟩
  | factor first rest ihFirst ihRest =>
      obtain ⟨first', hfirst⟩ := ihFirst
      obtain ⟨rest', hrest⟩ := ihRest
      exact ⟨.factor first' rest', by simp only [tokens, hfirst, hrest]⟩
  | powerLeft _ first rest ihFirst ihRest =>
      obtain ⟨first', hfirst⟩ := ihFirst
      obtain ⟨rest', hrest⟩ := ihRest
      obtain ⟨power, hpower⟩ := exists_power first' rest'
      exact ⟨power, by simp only [tokens, hpower, hfirst, hrest]⟩
  | powerRight _ tower ih =>
      obtain ⟨tower', htower⟩ := ih
      obtain ⟨first, links, hrow⟩ := tower'.exists_row
      obtain ⟨power, hpower⟩ := exists_power first links
      exact ⟨power, by rw [hpower, ← hrow, htower, tokens]⟩
  | ground base marks ihBase ihMarks =>
      obtain ⟨base', hbase⟩ := ihBase
      obtain ⟨marks', hmarks⟩ := ihMarks
      exact ⟨.ground base' marks', by simp only [tokens, hbase, hmarks]⟩
  | raised base marks exponent ihBase ihMarks ihExponent =>
      obtain ⟨base', hbase⟩ := ihBase
      obtain ⟨marks', hmarks⟩ := ihMarks
      obtain ⟨exponent', hexponent⟩ := ihExponent
      exact ⟨.raised base' marks' exponent', by simp only [tokens, hbase, hmarks, hexponent]⟩
  | negation operand ih =>
      obtain ⟨operand', hoperand⟩ := ih
      exact ⟨.negation operand', by simp only [tokens, hoperand]⟩
  | number x => exact ⟨.number x, rfl⟩
  | var name => exact ⟨.var name, rfl⟩
  | const name => exact ⟨.const name, rfl⟩
  | call function args ih =>
      obtain ⟨args', hargs⟩ := ih
      exact ⟨.call function args', by simp only [tokens, hargs]⟩
  | group content ih =>
      obtain ⟨content', hcontent⟩ := ih
      exact ⟨.group content', by simp only [tokens, hcontent]⟩
  | arguments function first rest ihFirst ihRest =>
      obtain ⟨first', hfirst⟩ := ihFirst
      obtain ⟨rest', hrest⟩ := ihRest
      exact ⟨.arguments function first' rest', by simp only [tokens, hfirst, hrest]⟩

end Reckoner.Phrase
