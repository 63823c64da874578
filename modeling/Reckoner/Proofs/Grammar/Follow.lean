import Reckoner.Proofs.Grammar.Phrase

/-!
What goes on with a phrase. Behind a whole phrase of a level the reader still takes the operators of
that level and of all levels below it, so a phrase ends only before another token.
-/

namespace Reckoner

/-- The operators of a chain, and those that go on with its last operand. -/
def Chain.extensions : Chain → List Token
  | .factorials => [.op "!"]
  | .powers => [.op "^", .op "!"]
  | .products => [.op "*", .op "/", .op "%", .op "^", .op "!"]
  | .sums => [.op "+", .op "-", .op "*", .op "/", .op "%", .op "^", .op "!"]
  | .arguments => [.separator, .op "+", .op "-", .op "*", .op "/", .op "%", .op "^", .op "!"]

/-- The tokens that go on with a phrase of a level. -/
def Level.extensions : Level → List Token
  | .expression => Chain.sums.extensions
  | .factor => Chain.products.extensions
  | .power | .powerRight => Chain.powers.extensions
  | .primary | .call _ => []

/-- Whether tokens do not go on with a phrase; if anything can, there has to be one that does
not. -/
def StopsAt (extensions : List Token) : List Token → Prop
  | [] => extensions = []
  | t :: _ => t ∉ extensions

namespace StopsAt

theorem of_subset {narrow wide ts : List Token} (hsub : narrow ⊆ wide) (h : StopsAt wide ts) :
    StopsAt narrow ts := by
  cases ts with
  | nil => exact List.eq_nil_of_subset_nil (h ▸ hsub)
  | cons t ts => exact fun hmem => h (hsub hmem)

theorem empty (ts : List Token) : StopsAt [] ts := by
  cases ts with
  | nil => rfl
  | cons t ts => exact List.not_mem_nil

end StopsAt

namespace Chain

theorem operand_extensions_subset (c : Chain) : c.operand.extensions ⊆ c.extensions := by
  cases c <;> decide

/-- An operator ends the operand before it. -/
theorem token_stops {c : Chain} (op : c.Operator) (ts : List Token) :
    StopsAt c.operand.extensions (op.token :: ts) := by
  cases op <;> simp [StopsAt, Level.extensions, extensions, Operator.token]

theorem markToken_stops {c : Chain} (m : c.Mark) (ts : List Token) :
    StopsAt c.operand.extensions (markToken :: ts) := by
  cases m <;> simp [StopsAt, Level.extensions]

theorem token_mem_extensions {c : Chain} (op : c.Operator) : op.token ∈ c.extensions := by
  cases op <;> simp [extensions, Operator.token]

theorem markToken_mem_extensions {c : Chain} (m : c.Mark) : markToken ∈ c.extensions := by
  cases m <;> simp [extensions, markToken]

theorem token_injective {c : Chain} {op op' : c.Operator} (h : op.token = op'.token) :
    op = op' := by
  cases op <;> cases op' <;> first | rfl | simp [Operator.token] at h

theorem token_ne_markToken {c : Chain} (op : c.Operator) : op.token ≠ markToken := by
  cases op <;> simp [Operator.token, markToken]

/-! ### The step of a chain -/

section Step

variable [Elementary] (operand : Reader Float)

theorem step_token {c : Chain} (op : c.Operator) (a : c.Carried) :
    c.step operand a op.token = some (operand >>= fun x => Reader.ofExcept (op.apply a x)) := by
  cases op <;> rfl

theorem step_markToken {c : Chain} (m : c.Mark) (a : c.Carried) :
    c.step operand a markToken = some (Reader.ofExcept (m.apply a)) := by
  cases m <;> rfl

theorem step_eq_none {c : Chain} {t : Token} (hop : ∀ op : c.Operator, t ≠ op.token)
    (hmark : c.Mark → t ≠ markToken) (a : c.Carried) : c.step operand a t = none := by
  cases c with
  | sums =>
      simp only [step]
      unfold Level.sumStep
      split
      · exact absurd rfl (hop .plus)
      · exact absurd rfl (hop .minus)
      · rfl
  | products =>
      simp only [step]
      unfold Level.productStep
      split
      · exact absurd rfl (hop .times)
      · exact absurd rfl (hop .over)
      · exact absurd rfl (hop .modulo)
      · rfl
  | powers =>
      simp only [step]
      unfold Level.powerStep
      split
      · exact absurd rfl (hop .raise)
      · exact absurd rfl (hmark .factorial)
      · rfl
  | factorials =>
      simp only [step]
      unfold Level.factorialStep
      split
      · exact absurd rfl (hmark .factorialAlone)
      · rfl
  | arguments =>
      simp only [step]
      unfold Level.argumentStep
      split
      · exact absurd rfl (hop .comma)
      · rfl

end Step

/-- What goes on with a chain: its own operators, and what goes on with an operand. -/
theorem mem_extensions {c : Chain} {t : Token} (h : t ∈ c.extensions) :
    (∃ op : c.Operator, t = op.token) ∨ (∃ _ : c.Mark, t = markToken) ∨
      t ∈ c.operand.extensions := by
  cases c with
  | sums =>
      rcases List.mem_cons.1 h with rfl | h
      · exact .inl ⟨.plus, rfl⟩
      rcases List.mem_cons.1 h with rfl | h
      · exact .inl ⟨.minus, rfl⟩
      · exact .inr (.inr h)
  | products =>
      rcases List.mem_cons.1 h with rfl | h
      · exact .inl ⟨.times, rfl⟩
      rcases List.mem_cons.1 h with rfl | h
      · exact .inl ⟨.over, rfl⟩
      rcases List.mem_cons.1 h with rfl | h
      · exact .inl ⟨.modulo, rfl⟩
      · exact .inr (.inr h)
  | powers =>
      rcases List.mem_cons.1 h with rfl | h
      · exact .inl ⟨.raise, rfl⟩
      · exact .inr (.inl ⟨.factorial, List.mem_singleton.1 h⟩)
  | factorials => exact .inr (.inl ⟨.factorialAlone, List.mem_singleton.1 h⟩)
  | arguments =>
      rcases List.mem_cons.1 h with rfl | h
      · exact .inl ⟨.comma, rfl⟩
      · exact .inr (.inr h)

/-- A chain goes on at its operators alone. -/
theorem step_cases [Elementary] (c : Chain) (t : Token) :
    (∃ op : c.Operator, t = op.token) ∨ (∃ _ : c.Mark, t = markToken) ∨
      ∀ operand a, c.step operand a t = none := by
  by_cases hop : ∃ op : c.Operator, t = op.token
  · exact .inl hop
  by_cases hmark : ∃ _ : c.Mark, t = markToken
  · exact .inr (.inl hmark)
  · exact .inr (.inr fun operand a =>
      step_eq_none operand (fun op h => hop ⟨op, h⟩) (fun m h => hmark ⟨m, h⟩) a)

theorem stopsAt_extensions [Elementary] (operand : Reader Float) {c : Chain} {t : Token}
    {ts : List Token} {a : c.Carried} (hstep : c.step operand a t = none)
    (h : StopsAt c.operand.extensions (t :: ts)) :
    StopsAt c.extensions (t :: ts) := by
  intro hmem
  rcases mem_extensions hmem with ⟨op, rfl⟩ | ⟨m, rfl⟩ | hoperand
  · simp [step_token] at hstep
  · simp [step_markToken _ m] at hstep
  · exact h hoperand

end Chain

/-- Behind the first operand of a chain stands an operator, or what ends the chain. -/
theorem Phrase.links_stop {order : PowerOrder} {c : Chain} (links : Phrase order (.links c))
    {ts : List Token} (h : StopsAt c.extensions ts) :
    StopsAt c.operand.extensions (links.tokens ++ ts) := by
  cases links with
  | done => exact h.of_subset c.operand_extensions_subset
  | link op operand rest => exact c.token_stops op _
  | mark m rest => exact c.markToken_stops m _

end Reckoner
