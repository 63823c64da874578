import Reckoner.Proofs.Session.Evaluation

/-!
Objects on one scope. They see the same tables, and these are what the last of them has left; and the
constants of a scope are those known from the start as long as none of its objects sets one.
-/

namespace Reckoner

/-- The name that a step gives to an object that it makes. -/
def Step.made? : Step → Option String
  | .newScope id | .newEvaluator id .. | .use _ (.copy id) => some id
  | .use .. => none

theorem Step.made?_of_not_use {step : Step} (h : ∀ id u, step ≠ .use id u) :
    step.made? = some step.id := by
  cases step with
  | newScope | newEvaluator => rfl
  | use id u => exact absurd rfl (h id u)

/-- The answer that tables give to a use that asks for the meaning of a name. -/
def Use.lookup? (tables : Scope) : Use → Option Answer
  | .role name => some (.role (tables.role? name))
  | .function name => some (.ofLookup .function name (Builtin.ofName? name))
  | .constant name => some (.ofLookup .number name (tables.constants.get? name))
  | .variableValue name => some (.ofLookup .number name (tables.vars.get? name))
  | .hasVariable name => some (.truth (tables.vars.contains name))
  | _ => none

theorem Use.constants_write {u : Use} (h : ∀ name value, u ≠ .setConstant name value)
    (scope : Scope) : (u.write scope).constants = scope.constants := by
  cases u with
  | setConstant name value => exact absurd rfl (h name value)
  | add values => exact scope.constants_add values
  | update values => exact scope.constants_update values
  | _ => rfl

namespace Session

variable {s : Session} {index : Nat}

/-! ### Evaluators on one scope -/

/-- An evaluator stays one, on its scope, until something else is given its name. -/
theorem evaluator_step (hs : s.WellFormed) {id : String} {e : Evaluator} {step : Step}
    (hid : s.objects.get? id = some (.evaluator index e)) (hmade : step.made? ≠ some id) :
    ∃ e', (s.step step).1.objects.get? id = some (.evaluator index e') := by
  have hother : (∀ name u, step ≠ .use name u) → id ≠ step.id := by
    rintro hno rfl
    exact hmade (Step.made?_of_not_use hno)
  rcases step_cases hs step with ⟨hnone, -⟩ | ⟨object, added, -, hno, hadded, hnew⟩ |
    ⟨object, other, shared, -, -, hno, hnew⟩ | ⟨name, u, object, rfl, hname, huse⟩
  · rw [hnone]
    exact ⟨e, hid⟩
  · rw [hnew, get?_setObject, if_neg (hother hno), hadded.objects]
    exact ⟨e, hid⟩
  · rw [hnew, get?_setObject, if_neg (hother hno)]
    exact ⟨e, hid⟩
  · rw [huse]
    rcases use_cases hs name (hs.objects hname) u with ⟨hnone, -⟩ |
      ⟨copy, copied, rfl, hcopied, hcopy⟩ | hwritten | ⟨i, changed, e', rfl, hchanged, -⟩
    · rw [hnone]
      exact ⟨e, hid⟩
    · have hne : id ≠ copy := by
        rintro rfl
        exact hmade rfl
      rw [hcopy, get?_setObject, if_neg hne, hcopied.objects]
      exact ⟨e, hid⟩
    · rw [hwritten.objects]
      exact ⟨e, hid⟩
    · rw [hchanged, get?_setObject]
      by_cases hsame : id = name
      · obtain ⟨rfl, -⟩ : i = index ∧ changed = e := by
          simpa [← hsame, hid, eq_comm] using hname
        exact ⟨e', if_pos hsame⟩
      · exact ⟨e, (if_neg hsame).trans hid⟩

theorem evaluator_after (hs : s.WellFormed) {id : String} {e : Evaluator} {steps : List Step}
    (hid : s.objects.get? id = some (.evaluator index e))
    (hmade : ∀ step ∈ steps, step.made? ≠ some id) :
    ∃ e', (s.after steps).objects.get? id = some (.evaluator index e') := by
  induction steps generalizing s e with
  | nil => exact ⟨e, hid⟩
  | cons step steps ih =>
      obtain ⟨e', hnext⟩ := evaluator_step hs hid (hmade step List.mem_cons_self)
      exact ih (hs.step step) hnext fun step hmem => hmade step (List.mem_cons_of_mem _ hmem)

/-- An object of a session has given tables before it: it shows their variables, takes the meaning of
names from them, and evaluates with them. -/
structure Sees (s : Session) (id : String) (tables : Scope) : Prop where
  vars : (s.view? id).map View.vars = some tables.vars.sorted
  lookup : ∀ u answer, Use.lookup? tables u = some answer → (s.step (.use id u)).2 = answer
  evaluation : ∀ i e, s.objects.get? id = some (.evaluator i e) →
    (s.step (.use id .evaluate)).2 = .ofResult (evaluate s.limits tables e.order e.expression).result

theorem sees_of_found {id : String} {object : Object} (hid : s.objects.get? id = some object) :
    s.Sees id (s.scopeAt object.index) where
  vars := by
    rw [view?, hid]
    rfl
  lookup u answer hu := by
    rw [step_use hid]
    cases u with
    | role | function | constant | variableValue | hasVariable => exact Option.some.inj hu
    | _ => cases hu
  evaluation i e hevaluator := by
    obtain rfl := Option.some.inj (hid.symm.trans hevaluator)
    rw [step_evaluate hid]
    rfl

/-- Evaluators that share a scope, at any time after: they see the same tables, made of all that was
written through any of them. -/
theorem evaluators_share (hs : s.WellFormed) {shared : String} {object : Object}
    (hshared : s.objects.get? shared = some object) (id expression : String) (order : PowerOrder)
    {later : List Step} (hlater : ∀ step ∈ later, step.made? ≠ some id) {steps : List Step}
    (hsteps : steps = .newEvaluator id expression order (some shared) :: later) :
    (∃ e, (s.after steps).objects.get? id = some (.evaluator object.index e)) ∧
      ∀ other object', (s.after steps).objects.get? other = some object' →
        object'.index = object.index →
        (s.after steps).Sees other
          ((s.scopeAt object.index).written (s.usesOn object.index steps)) := by
  have hmade : (s.step (.newEvaluator id expression order (some shared))).1.objects.get? id =
      some (.evaluator object.index { expression, order }) := by
    simp only [step, hshared]
    exact get?_setObject_self ..
  have hkept := evaluator_after (hs.step _) hmade hlater
  subst hsteps
  refine ⟨hkept, fun other object' hother hindex => ?_⟩
  rw [← scopeAt_after hs (hs.objects hshared), ← hindex]
  exact sees_of_found hother

/-! ### The constants of a scope -/

/-- A step that does not set a constant in a scope leaves it the constants known from the start. -/
theorem constants_step (hs : s.WellFormed) {step : Step}
    (hstep : ∀ name value, s.useOn? index step ≠ some (.setConstant name value))
    (hconstants : (s.scopeAt index).constants = Scope.builtin.constants) :
    ((s.step step).1.scopeAt index).constants = Scope.builtin.constants := by
  rcases step_cases hs step with ⟨hnone, -⟩ | ⟨object, added, -, -, hadded, hnew⟩ |
    ⟨object, other, shared, -, -, -, hnew⟩ | ⟨id, u, object, rfl, hid, huse⟩
  · rwa [hnone]
  · rw [hnew, scopeAt_setObject, hadded.scopeAt]
    split
    · rfl
    · exact hconstants
  · rwa [hnew, scopeAt_setObject]
  · rw [huse]
    rcases use_cases hs id (hs.objects hid) u with ⟨hnone, -⟩ |
      ⟨copy, copied, rfl, hcopied, hcopy⟩ | hwritten | ⟨i, e, e', rfl, hchanged, -⟩
    · rwa [hnone]
    · rw [hcopy, scopeAt_setObject, hcopied.scopeAt]
      split
      · rfl
      · exact hconstants
    · rw [hwritten.scopeAt]
      by_cases hindex : index = object.index
      · have hu : ∀ name value, u ≠ .setConstant name value := by
          rintro name value rfl
          exact hstep name value (by simp [useOn?, hid, hindex])
        rw [if_pos hindex, u.constants_write hu, ← hindex, hconstants]
      · rwa [if_neg hindex]
    · rwa [hchanged, scopeAt_setObject]

theorem constants_after (hs : s.WellFormed) {steps : List Step}
    (hsteps : ∀ name value, .setConstant name value ∉ s.usesOn index steps)
    (hconstants : (s.scopeAt index).constants = Scope.builtin.constants) :
    ((s.after steps).scopeAt index).constants = Scope.builtin.constants := by
  induction steps generalizing s with
  | nil => exact hconstants
  | cons step steps ih =>
      have hstep : ∀ name value, s.useOn? index step ≠ some (.setConstant name value) := by
        intro name value hset
        refine hsteps name value (List.mem_append_left _ ?_)
        rw [hset]
        exact List.mem_singleton_self _
      exact ih (hs.step step) (fun name value hset =>
        hsteps name value (List.mem_append_right _ hset)) (constants_step hs hstep hconstants)

end Session
end Reckoner
