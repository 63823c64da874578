import Reckoner.Proofs.Grammar.Follow

/-!
The grammar is unambiguous. Where what stands behind a phrase does not go on with it, the tokens
determine the phrase, and where it ends.
-/

namespace Reckoner

/-- The tokens that go on with a phrase of a category. -/
def Category.extensions : Category → List Token
  | .whole level => level.extensions
  | .links c => c.extensions

namespace Phrase

variable {order : PowerOrder}

theorem stopsAt_ending (category : Category) (ts : List Token) :
    StopsAt category.extensions (.ending :: ts) := by
  cases category with
  | whole level =>
      cases level <;> simp [StopsAt, Category.extensions, Level.extensions, Chain.extensions]
  | links c => cases c <;> simp [StopsAt, Category.extensions, Chain.extensions]

/-- A phrase can be told from all that its tokens begin. -/
def Determined {category : Category} (p : Phrase order category) : Prop :=
  ∀ ⦃p' : Phrase order category⦄ ⦃ts ts' : List Token⦄, StopsAt category.extensions ts →
    StopsAt category.extensions ts' → p.tokens ++ ts = p'.tokens ++ ts' → p = p' ∧ ts = ts'

/-- The operand at the head of a chain ends where the chain begins. -/
theorem Determined.chain {c : Chain} {first first' : Phrase order (.whole c.operand)}
    {rest rest' : Phrase order (.links c)} (hfirst : first.Determined) (hrest : rest.Determined)
    {ts ts' : List Token} (hstop : StopsAt c.extensions ts) (hstop' : StopsAt c.extensions ts')
    (h : first.tokens ++ (rest.tokens ++ ts) = first'.tokens ++ (rest'.tokens ++ ts')) :
    (first = first' ∧ rest = rest') ∧ ts = ts' := by
  obtain ⟨rfl, hlinks⟩ := hfirst (rest.links_stop hstop) (rest'.links_stop hstop') h
  obtain ⟨rfl, rfl⟩ := hrest hstop hstop' hlinks
  exact ⟨⟨rfl, rfl⟩, rfl⟩

theorem determined {category : Category} (p : Phrase order category) : p.Determined := by
  -- the first token tells the form of the phrase, or an operator that stops the part before it
  induction p with
  | done c =>
      intro p' ts ts' hstop _ h
      cases p' with
      | done => exact ⟨rfl, h⟩
      | link op operand rest =>
          subst h
          exact absurd (c.token_mem_extensions op) hstop
      | mark m rest =>
          subst h
          exact absurd (c.markToken_mem_extensions m) hstop
  | link op operand rest ihOperand ihRest =>
      rename_i c
      intro p' ts ts' hstop hstop' h
      cases p' with
      | done =>
          obtain rfl : _ = ts' := h
          exact absurd (c.token_mem_extensions op) hstop'
      | link op' operand' rest' =>
          simp only [tokens, List.cons_append, List.cons.injEq, List.append_assoc] at h
          obtain rfl := c.token_injective h.1
          obtain ⟨⟨rfl, rfl⟩, rfl⟩ := ihOperand.chain ihRest hstop hstop' h.2
          exact ⟨rfl, rfl⟩
      | mark m rest' => exact absurd (List.cons.inj h).1 (c.token_ne_markToken op)
  | mark m rest ih =>
      rename_i c
      intro p' ts ts' hstop hstop' h
      cases p' with
      | done =>
          obtain rfl : _ = ts' := h
          exact absurd (c.markToken_mem_extensions m) hstop'
      | link op operand rest' => exact absurd (List.cons.inj h).1.symm (c.token_ne_markToken op)
      | mark m' rest' =>
          obtain rfl : m = m' := by cases m <;> cases m' <;> rfl
          obtain ⟨rfl, rfl⟩ := ih hstop hstop' (List.cons.inj h).2
          exact ⟨rfl, rfl⟩
  | expression first rest ihFirst ihRest =>
      intro p' ts ts' hstop hstop' h
      cases p' with
      | expression first' rest' =>
        simp only [tokens, List.append_assoc] at h
        obtain ⟨⟨rfl, rfl⟩, rfl⟩ := ihFirst.chain ihRest hstop hstop' h
        exact ⟨rfl, rfl⟩
  | factor first rest ihFirst ihRest =>
      intro p' ts ts' hstop hstop' h
      cases p' with
      | factor first' rest' =>
        simp only [tokens, List.append_assoc] at h
        obtain ⟨⟨rfl, rfl⟩, rfl⟩ := ihFirst.chain ihRest hstop hstop' h
        exact ⟨rfl, rfl⟩
  | powerLeft horder first rest ihFirst ihRest =>
      intro p' ts ts' hstop hstop' h
      cases p' with
      | powerLeft _ first' rest' =>
          simp only [tokens, List.append_assoc] at h
          obtain ⟨⟨rfl, rfl⟩, rfl⟩ := ihFirst.chain ihRest hstop hstop' h
          exact ⟨rfl, rfl⟩
      | powerRight horder' => simp [horder] at horder'
  | powerRight horder tower ih =>
      intro p' ts ts' hstop hstop' h
      cases p' with
      | powerLeft horder' => simp [horder] at horder'
      | powerRight _ tower' =>
          obtain ⟨rfl, rfl⟩ := ih hstop hstop' h
          exact ⟨rfl, rfl⟩
  | ground base marks ihBase ihMarks =>
      intro p' ts ts' hstop hstop' h
      have hmarks : StopsAt Chain.factorials.extensions ts := hstop.of_subset (by decide)
      cases p' with
      | ground base' marks' =>
          have hmarks' : StopsAt Chain.factorials.extensions ts' := hstop'.of_subset (by decide)
          simp only [tokens, List.append_assoc] at h
          obtain ⟨⟨rfl, rfl⟩, rfl⟩ := ihBase.chain ihMarks hmarks hmarks' h
          exact ⟨rfl, rfl⟩
      | raised base' marks' exponent' =>
          -- the marks are the same, so an exponent would go on with the power
          simp only [tokens, List.append_assoc] at h
          have hraise :
              StopsAt Chain.factorials.extensions (.op "^" :: (exponent'.tokens ++ ts')) := by
            simp [StopsAt, Chain.extensions]
          obtain ⟨-, rfl⟩ := ihBase.chain ihMarks hmarks hraise h
          simp [StopsAt, Category.extensions, Level.extensions, Chain.extensions] at hstop
  | raised base marks exponent ihBase ihMarks ihExponent =>
      intro p' ts ts' hstop hstop' h
      have hraise : StopsAt Chain.factorials.extensions (.op "^" :: (exponent.tokens ++ ts)) := by
        simp [StopsAt, Chain.extensions]
      cases p' with
      | ground base' marks' =>
          have hmarks' : StopsAt Chain.factorials.extensions ts' := hstop'.of_subset (by decide)
          simp only [tokens, List.append_assoc] at h
          obtain ⟨-, rfl⟩ := ihBase.chain ihMarks hraise hmarks' h
          simp [StopsAt, Category.extensions, Level.extensions, Chain.extensions] at hstop'
      | raised base' marks' exponent' =>
          have hraise' :
              StopsAt Chain.factorials.extensions (.op "^" :: (exponent'.tokens ++ ts')) := by
            simp [StopsAt, Chain.extensions]
          simp only [tokens, List.append_assoc] at h
          obtain ⟨⟨rfl, rfl⟩, hrest⟩ := ihBase.chain ihMarks hraise hraise' h
          obtain ⟨rfl, rfl⟩ := ihExponent hstop hstop' (List.cons.inj hrest).2
          exact ⟨rfl, rfl⟩
  | negation operand ih =>
      intro p' ts ts' hstop hstop' h
      cases p' with
      | negation operand' =>
          obtain ⟨rfl, rfl⟩ := ih hstop hstop' (List.cons.inj h).2
          exact ⟨rfl, rfl⟩
      | _ => simp [tokens] at h
  | number x =>
      intro p' ts ts' _ _ h
      cases p' with
      | number y =>
          obtain ⟨rfl, rfl⟩ : x = y ∧ ts = ts' := by simpa [tokens] using h
          exact ⟨rfl, rfl⟩
      | _ => simp [tokens] at h
  | var name =>
      intro p' ts ts' _ _ h
      cases p' with
      | var name' =>
          obtain ⟨rfl, rfl⟩ : name = name' ∧ ts = ts' := by simpa [tokens] using h
          exact ⟨rfl, rfl⟩
      | _ => simp [tokens] at h
  | const name =>
      intro p' ts ts' _ _ h
      cases p' with
      | const name' =>
          obtain ⟨rfl, rfl⟩ : name = name' ∧ ts = ts' := by simpa [tokens] using h
          exact ⟨rfl, rfl⟩
      | _ => simp [tokens] at h
  | call function args ih =>
      intro p' ts ts' _ _ h
      cases p' with
      | call function' args' =>
          simp only [tokens, List.cons_append, List.cons.injEq, Token.func.injEq] at h
          obtain ⟨rfl, h⟩ := h
          obtain ⟨rfl, rfl⟩ := ih (.empty ts) (.empty ts') h
          exact ⟨rfl, rfl⟩
      | _ => simp [tokens] at h
  | group content ih =>
      intro p' ts ts' _ _ h
      have hclose (ts : List Token) : StopsAt Level.expression.extensions (.op ")" :: ts) := by
        simp [StopsAt, Level.extensions, Chain.extensions]
      cases p' with
      | group content' =>
          simp only [tokens, List.cons_append, List.append_assoc, List.cons.injEq, true_and] at h
          obtain ⟨rfl, hrest⟩ := ih (hclose _) (hclose _) h
          exact ⟨rfl, (List.cons.inj hrest).2⟩
      | _ => simp [tokens] at h
  | arguments function first rest ihFirst ihRest =>
      intro p' ts ts' _ _ h
      cases p' with
      | arguments _ first' rest' =>
        simp only [tokens, List.cons_append, List.append_assoc, List.cons.injEq, true_and] at h
        have hclose (ts : List Token) : StopsAt Chain.arguments.extensions (.op ")" :: ts) := by
          simp [StopsAt, Chain.extensions]
        obtain ⟨⟨rfl, rfl⟩, hrest⟩ := ihFirst.chain ihRest (hclose _) (hclose _) h
        exact ⟨rfl, (List.cons.inj hrest).2⟩

/-- No tokens have two phrases of one category. -/
theorem tokens_injective {category : Category} {p p' : Phrase order category}
    (h : p.tokens = p'.tokens) : p = p' := by
  have hends : p.tokens ++ [.ending] = p'.tokens ++ [.ending] := by rw [h]
  exact (p.determined (stopsAt_ending _ []) (stopsAt_ending _ []) hends).1

end Phrase
end Reckoner
