import Reckoner.Proofs.Arithmetic.Division
import Reckoner.Proofs.Arithmetic.Factorial
import Reckoner.Proofs.Arithmetic.Modulo
import Reckoner.Proofs.Arithmetic.Power
import Reckoner.Proofs.Grammar.Phrase

/-!
Why a phrase has no value: a name that stands for nothing, or a call that fails on the values of its
arguments. No operator is to blame, as each has a value for all operands. The cause is known with its
place, so that it can be compared with where a reader halts.
-/

namespace Reckoner

/-- Whether the scope knows what a token names. -/
def Scope.Resolves (scope : Scope) : Token → Prop
  | .var name => (scope.vars.get? name).isSome
  | .const name => (scope.constants.get? name).isSome
  | .func name => (Builtin.ofName? name).isSome
  | _ => True

instance (scope : Scope) (t : Token) : Decidable (scope.Resolves t) := by
  unfold Scope.Resolves
  split <;> infer_instance

theorem Except.bind_eq_error {α β ε : Type} {x : Except ε α} {f : α → Except ε β} {e : ε}
    (h : (x >>= f) = .error e) : x = .error e ∨ ∃ a, x = .ok a ∧ f a = .error e := by
  cases x with
  | error e' =>
      obtain rfl : e' = e := Except.error.inj h
      exact .inl rfl
  | ok a => exact .inr ⟨a, rfl, h⟩

/-- What has been read before a level and belongs to it: the function's name, for the arguments of a
call. -/
def Level.before : Level → List Token
  | .call function => [.func function]
  | .expression | .factor | .power | .powerRight | .primary => []

@[simp] def Category.before : Category → List Token
  | .whole level => level.before
  | .links _ => []

@[simp] theorem Chain.before_operand (c : Chain) : c.operand.before = [] := by cases c <;> rfl

theorem Chain.Mark.apply_total : {c : Chain} → (m : c.Mark) → (a : c.Carried) →
    ∃ b, m.apply a = .ok b
  | _, .factorial, (a : Float) | _, .factorialAlone, (a : Float) =>
    have ⟨b, hb⟩ := Arithmetic.factorial_total a
    ⟨b, congrArg Halt.raising hb⟩

variable [Elementary] {scope : Scope} {order : PowerOrder}

theorem Chain.Operator.apply_total : {c : Chain} → (op : c.Operator) → (a : c.Carried) → (x : Float) →
    ∃ b, op.apply a x = .ok b
  | _, .plus, _, _ | _, .minus, _, _ | _, .times, _, _ | _, .comma, _, _ => ⟨_, rfl⟩
  | _, .over, (a : Float), x => ⟨_, congrArg Halt.raising (Arithmetic.divide_eq a x)⟩
  | _, .modulo, (a : Float), x =>
    have ⟨b, hb⟩ := Arithmetic.modulo_total a x
    ⟨b, congrArg Halt.raising hb⟩
  | _, .raise, (a : Float), x =>
    have ⟨b, hb⟩ := Arithmetic.power_total a x
    ⟨b, congrArg Halt.raising hb⟩

namespace Phrase

/-- The values of the arguments in the parentheses of a call. -/
def values {function : String} (scope : Scope) :
    Phrase order (.whole (.call function)) → Except Halt (List Float)
  | .arguments _ first rest => do rest.outcome scope [← first.outcome scope]

theorem outcome_call {function : String} (args : Phrase order (.whole (.call function))) :
    args.outcome scope = args.values scope >>= Builtin.callNamed function := by
  cases args with
  | arguments _ first rest => exact outcome_arguments scope function first rest

end Phrase

/-- Why a phrase halts, with the tokens up to where it does and those behind. -/
inductive Cause (scope : Scope) (order : PowerOrder) : Halt → List Token → List Token → Prop
  /-- The variable that comes next has no value. -/
  | unbound {name : String} (h : scope.vars.get? name = none) (u v : List Token) :
      Cause scope order (.fault (.undefinedVariable name)) u (.var name :: v)
  /-- The constant just before has no value. -/
  | unknown {name : String} (h : scope.constants.get? name = none) (u v : List Token) :
      Cause scope order (.unknownName name) (u ++ [.const name]) v
  /-- The call just before fails on the values of its arguments. -/
  | call {name : String} {args : Phrase order (.whole (.call name))} {xs : List Float} {h : Halt}
      (hvalues : args.values scope = .ok xs) (hcall : Builtin.callNamed name xs = .error h)
      (u v : List Token) : Cause scope order h (u ++ .func name :: args.tokens) v

theorem Cause.within {h : Halt} {u v : List Token} (c : Cause scope order h u v)
    (front behind : List Token) : Cause scope order h (front ++ u) (v ++ behind) := by
  cases c with
  | unbound hx u v => exact .unbound hx _ _
  | unknown hx u v =>
      rw [← List.append_assoc]
      exact .unknown hx _ _
  | call hvalues hcall u v =>
      rw [← List.append_assoc]
      exact .call hvalues hcall _ _

/-- Among tokens with all names known, only a call fails. -/
theorem Cause.exists_call {h : Halt} {u v : List Token} (c : Cause scope order h u v)
    (hresolves : ∀ t ∈ u ++ v, scope.Resolves t) :
    ∃ (front : List Token) (name : String) (args : Phrase order (.whole (.call name)))
      (xs : List Float), u = front ++ .func name :: args.tokens ∧ args.values scope = .ok xs ∧
        Builtin.callNamed name xs = .error h := by
  cases c with
  | @unbound name hx u v =>
      have hresolved := hresolves (.var name) (by simp)
      simp [Scope.Resolves, hx] at hresolved
  | @unknown name hx u v =>
      have hresolved := hresolves (.const name) (by simp)
      simp [Scope.Resolves, hx] at hresolved
  | call hvalues hcall u v => exact ⟨u, _, _, _, rfl, hvalues, hcall⟩

namespace Phrase

/-- The halt has its cause inside the phrase. -/
def Causes (scope : Scope) {category : Category} (p : Phrase order category) (h : Halt) : Prop :=
  ∃ u v, category.before ++ p.tokens = u ++ v ∧ Cause scope order h u v

theorem Causes.within {category category' : Category} {q : Phrase order category'} {h : Halt}
    (hq : q.Causes scope h) {p : Phrase order category} (front behind : List Token)
    (htokens : category.before ++ p.tokens = front ++ (category'.before ++ q.tokens) ++ behind) :
    p.Causes scope h := by
  obtain ⟨u, v, huv, hcause⟩ := hq
  refine ⟨front ++ u, v ++ behind, ?_, hcause.within front behind⟩
  rw [htokens, huv]
  simp

/-- Every failure of the phrase has its cause inside it. -/
def Explained (scope : Scope) : {category : Category} → Phrase order category → Prop
  | .whole _, p => ∀ ⦃h⦄, p.outcome scope = .error h → p.Causes scope h
  | .links _, p => ∀ ⦃a h⦄, p.outcome scope a = .error h → p.Causes scope h

/-- A first operand with its chain is explained inside any phrase that holds both. -/
theorem Explained.chain {c : Chain} {first : Phrase order (.whole c.operand)}
    {rest : Phrase order (.links c)} (hfirst : first.Explained scope)
    (hrest : rest.Explained scope) {h : Halt}
    (herror : (first.outcome scope >>= fun x => rest.outcome scope (c.start x)) = .error h)
    {category : Category} {p : Phrase order category} (front behind : List Token)
    (htokens : category.before ++ p.tokens = front ++ (first.tokens ++ rest.tokens) ++ behind) :
    p.Causes scope h := by
  rcases Except.bind_eq_error herror with hx | ⟨x, -, hlinks⟩
  · refine (hfirst hx).within front (rest.tokens ++ behind) ?_
    rw [htokens]
    simp
  · refine (hrest hlinks).within (front ++ first.tokens) behind ?_
    rw [htokens]
    simp

theorem explained {category : Category} (p : Phrase order category) : p.Explained scope := by
  induction p with
  | done c =>
      intro a h herror
      cases herror
  | link op operand rest ihOperand ihRest =>
      rename_i c
      intro a h herror
      rcases Except.bind_eq_error herror with hx | ⟨x, -, hrest⟩
      · refine (ihOperand hx).within [op.token] rest.tokens ?_
        simp [tokens]
      · obtain ⟨b, hb⟩ := op.apply_total a x
        rw [hb] at hrest
        exact (ihRest hrest).within (op.token :: operand.tokens) [] (by simp [tokens])
  | mark m rest ih =>
      intro a h herror
      obtain ⟨b, hb⟩ := m.apply_total a
      simp only [outcome, hb] at herror
      exact (ih herror).within [Chain.markToken] [] (by simp [tokens])
  | expression first rest ihFirst ihRest =>
      intro h herror
      exact ihFirst.chain ihRest herror [] [] (by simp [tokens, Level.before])
  | factor first rest ihFirst ihRest =>
      intro h herror
      exact ihFirst.chain ihRest herror [] [] (by simp [tokens, Level.before])
  | powerLeft _ first rest ihFirst ihRest =>
      intro h herror
      exact ihFirst.chain ihRest herror [] [] (by simp [tokens, Level.before])
  | powerRight _ tower ih =>
      intro h herror
      exact (ih herror).within [] [] (by simp [tokens, Level.before])
  | ground base marks ihBase ihMarks =>
      intro h herror
      exact ihBase.chain ihMarks herror [] [] (by simp [tokens, Level.before])
  | raised base marks exponent ihBase ihMarks ihExponent =>
      intro h herror
      rw [outcome_raised] at herror
      rcases Except.bind_eq_error herror with hb | ⟨b, -, hpower⟩
      · refine ihBase.chain ihMarks hb [] (.op "^" :: exponent.tokens) ?_
        simp [tokens, Level.before]
      · rcases Except.bind_eq_error hpower with he | ⟨e, -, hok⟩
        · refine (ihExponent he).within (base.tokens ++ (marks.tokens ++ [.op "^"])) [] ?_
          simp [tokens, Level.before]
        · obtain ⟨x, hx⟩ := Arithmetic.power_total b e
          rw [hx] at hok
          cases hok
  | negation operand ih =>
      intro h herror
      rcases Except.bind_eq_error herror with hx | ⟨x, -, hok⟩
      · exact (ih hx).within [.op "-"] [] (by simp [tokens, Level.before])
      · cases hok
  | number x =>
      intro h herror
      cases herror
  | var name =>
      intro h herror
      cases hx : scope.vars.get? name with
      | none =>
          obtain rfl : Halt.fault (.undefinedVariable name) = h := by
            simpa [outcome, hx] using herror
          exact ⟨[], [.var name], rfl, .unbound hx [] []⟩
      | some x => simp [outcome, hx] at herror
  | const name =>
      intro h herror
      cases hx : scope.constants.get? name with
      | none =>
          obtain rfl : Halt.unknownName name = h := by simpa [outcome, hx] using herror
          exact ⟨[.const name], [], rfl, .unknown hx [] []⟩
      | some x => simp [outcome, hx] at herror
  | call function args ih =>
      intro h herror
      exact (ih herror).within [] [] (by simp [tokens, Level.before])
  | group content ih =>
      intro h herror
      refine (ih herror).within [.op "("] [.op ")"] ?_
      simp [tokens, Level.before]
  | arguments function first rest ihFirst ihRest =>
      intro h herror
      rw [outcome_call] at herror
      -- an argument has failed, or the function on the values of all of them
      rcases Except.bind_eq_error herror with hvalues | ⟨xs, hvalues, hcall⟩
      · refine ihFirst.chain ihRest hvalues [.func function, .op "("] [.op ")"] ?_
        simp [tokens, Level.before]
      · exact ⟨_, [], (List.append_nil _).symm, .call hvalues hcall [] []⟩

end Phrase
end Reckoner
