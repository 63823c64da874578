import Reckoner.Proofs.Session.Tables

/-!
Runs of a session: the state that steps lead to, what they keep, and what they write. Objects work on
scopes that are there, and the tables of a scope are what has been written into them, in order,
through any of the objects that work on it.
-/

namespace Reckoner

/-! ### The parts of a session -/

namespace Session

variable (s : Session)

@[simp] theorem get?_setObject (id : String) (object : Object) (name : String) :
    (s.setObject id object).objects.get? name =
      if name = id then some object else s.objects.get? name :=
  Table.get?_insert ..

theorem get?_setObject_self (id : String) (object : Object) :
    (s.setObject id object).objects.get? id = some object :=
  (get?_setObject ..).trans (if_pos rfl)

@[simp] theorem scopes_setObject (id : String) (object : Object) :
    (s.setObject id object).scopes = s.scopes := rfl

@[simp] theorem limits_setObject (id : String) (object : Object) :
    (s.setObject id object).limits = s.limits := rfl

@[simp] theorem scopeAt_setObject (id : String) (object : Object) (index : Nat) :
    (s.setObject id object).scopeAt index = s.scopeAt index := rfl

end Session

/-! ### What a use does -/

/-- What a use writes into the tables of the scope that it works on. -/
def Use.write : Use → Scope → Scope
  | .add values, scope => (scope.add values).1
  | .update values, scope => (scope.update values).1
  | .setConstant name value, scope => scope.setConstant name value
  | _, scope => scope

/-- The tables of a scope that has been written into by one use after another. -/
def Scope.written (scope : Scope) (uses : List Use) : Scope :=
  uses.foldl (fun scope u => u.write scope) scope

theorem Scope.written_append (scope : Scope) (uses more : List Use) :
    scope.written (uses ++ more) = (scope.written uses).written more :=
  List.foldl_append

namespace Session

variable {s : Session}

/-- What a merge has come to is written into the variables of a scope; the constants were its own. -/
theorem WellFormed.merge (hs : s.WellFormed) {index : Nat} (hindex : index < s.scopes.length)
    {merged : Scope × Option ValueFault}
    (hconstants : merged.1.constants = (s.scopeAt index).constants) :
    s.Written index merged.1 (s.merge index merged).1 := by
  have hwritten := hs.setVars hindex merged.1.vars
  rwa [← hconstants] at hwritten

/-- What a use does to a session, whatever it answers: nothing, or it adds a copy, writes into the
scope, or changes the object itself. -/
theorem use_cases (hs : s.WellFormed) (id : String) {object : Object}
    (hobject : object.index < s.scopes.length) (u : Use) :
    ((s.use id object u).1 = s ∧ ∀ scope, u.write scope = scope) ∨
      (∃ name copied, u = .copy name ∧ s.Added (s.scopeAt object.index).copy copied ∧
        (s.use id object u).1 = copied.setObject name (.scope s.scopes.length)) ∨
      s.Written object.index (u.write (s.scopeAt object.index)) (s.use id object u).1 ∨
      ∃ index e e', object = .evaluator index e ∧
        (s.use id object u).1 = s.setObject id (.evaluator index e') ∧
        ∀ scope, u.write scope = scope := by
  cases u with
  | copy name => exact .inr (.inl ⟨name, _, rfl, hs.copyScope hobject, rfl⟩)
  | add values => exact .inr (.inr (.inl (hs.merge hobject (Scope.constants_add ..))))
  | update values => exact .inr (.inr (.inl (hs.merge hobject (Scope.constants_update ..))))
  | setConstant name value => exact .inr (.inr (.inl (hs.setConstants hobject _)))
  | setExpression expression =>
      cases object with
      | scope i => exact .inl ⟨rfl, fun _ => rfl⟩
      | evaluator i e =>
          exact .inr (.inr (.inr ⟨i, e, { e with expression }, rfl, rfl, fun _ => rfl⟩))
  | setOrder order =>
      cases object with
      | scope i => exact .inl ⟨rfl, fun _ => rfl⟩
      | evaluator i e =>
          exact .inr (.inr (.inr ⟨i, e, { e with order }, rfl, rfl, fun _ => rfl⟩))
  | evaluate =>
      cases object with
      | scope i => exact .inl ⟨rfl, fun _ => rfl⟩
      | evaluator i e =>
          exact .inr (.inr (.inr
            ⟨i, e, (e.evaluate s.limits (s.scopeAt i)).1, rfl, rfl, fun _ => rfl⟩))
  | current => cases object <;> exact .inl ⟨rfl, fun _ => rfl⟩
  | role | function | constant | variableValue | hasVariable => exact .inl ⟨rfl, fun _ => rfl⟩

/-- A use writes into the scope that its object works on, and into no other. -/
theorem scopeAt_use (hs : s.WellFormed) {object : Object} (hobject : object.index < s.scopes.length)
    (id : String) (u : Use) {i : Nat} (hi : i < s.scopes.length) :
    (s.use id object u).1.scopeAt i =
      if i = object.index then u.write (s.scopeAt i) else s.scopeAt i := by
  rcases use_cases hs id hobject u with ⟨hnone, hwrite⟩ | ⟨name, copied, rfl, hcopied, hcopy⟩ |
    hwritten | ⟨index, e, e', -, hchanged, hwrite⟩
  · rw [hnone, hwrite, ite_self]
  · have hwrite : (Use.copy name).write (s.scopeAt i) = s.scopeAt i := rfl
    rw [hcopy, scopeAt_setObject, hcopied.scopeAt, if_neg (Nat.ne_of_lt hi), hwrite, ite_self]
  · rw [hwritten.scopeAt]
    by_cases h : i = object.index
    · rw [if_pos h, if_pos h, h]
    · rw [if_neg h, if_neg h]
  · rw [hchanged, scopeAt_setObject, hwrite, ite_self]

theorem length_le_use (hs : s.WellFormed) (id : String) {object : Object}
    (hobject : object.index < s.scopes.length) (u : Use) :
    s.scopes.length ≤ (s.use id object u).1.scopes.length := by
  rcases use_cases hs id hobject u with ⟨hnone, -⟩ | ⟨name, copied, -, hcopied, hcopy⟩ | hwritten |
    ⟨index, e, e', -, hchanged, -⟩
  · simp [hnone]
  · simp [hcopy, hcopied.length]
  · simp [hwritten.length]
  · simp [hchanged]

theorem limits_use (hs : s.WellFormed) (id : String) {object : Object}
    (hobject : object.index < s.scopes.length) (u : Use) :
    (s.use id object u).1.limits = s.limits := by
  rcases use_cases hs id hobject u with ⟨hnone, -⟩ | ⟨name, copied, -, hcopied, hcopy⟩ | hwritten |
    ⟨index, e, e', -, hchanged, -⟩
  · rw [hnone]
  · rw [hcopy, limits_setObject, hcopied.limits]
  · exact hwritten.limits
  · rw [hchanged, limits_setObject]

/-! ### Sessions stay well-formed -/

theorem WellFormed.setObject (hs : s.WellFormed) (id : String) {object : Object}
    (h : object.index < s.scopes.length) : (s.setObject id object).WellFormed where
  builtin := hs.builtin
  inRange := hs.inRange
  distinct := hs.distinct
  objects := by
    intro name found hname
    rw [get?_setObject] at hname
    split at hname
    · obtain rfl := Option.some.inj hname
      exact h
    · exact hs.objects hname

/-- A scope is added, and an object made that works on it. -/
theorem Added.setObject {added : Session} {scope : Scope} (h : s.Added scope added) (id : String)
    {object : Object} (hobject : object.index = s.scopes.length) :
    (added.setObject id object).WellFormed :=
  h.wellFormed.setObject id (by rw [hobject, h.length]; exact Nat.lt_succ_self _)

theorem WellFormed.use (hs : s.WellFormed) (id : String) {object : Object}
    (hobject : object.index < s.scopes.length) (u : Use) : (s.use id object u).1.WellFormed := by
  rcases use_cases hs id hobject u with ⟨hnone, -⟩ | ⟨name, copied, -, hcopied, hcopy⟩ | hwritten |
    ⟨index, e, e', rfl, hchanged, -⟩
  · rwa [hnone]
  · rw [hcopy]
    exact hcopied.setObject name rfl
  · exact hwritten.wellFormed
  · have hindex : index < s.scopes.length := hobject
    rw [hchanged]
    exact hs.setObject id hindex

/-! ### What a step does -/

theorem step_use {id : String} {object : Object} (h : s.objects.get? id = some object) (u : Use) :
    s.step (.use id u) = s.use id object u := by
  simp only [step, h]

/-- A step finds nothing to work on, makes an object with a scope of its own or with that of another,
or uses an object. -/
theorem step_cases (hs : s.WellFormed) (step : Step) :
    ((s.step step).1 = s ∧ ∀ id u, step = .use id u → s.objects.get? id = none) ∨
      (∃ (object : Object) (added : Session), object.index = s.scopes.length ∧
        (∀ id u, step ≠ .use id u) ∧ s.Added .builtin added ∧
        (s.step step).1 = added.setObject step.id object) ∨
      (∃ object other shared, s.objects.get? other = some shared ∧
        object.index = shared.index ∧ (∀ id u, step ≠ .use id u) ∧
        (s.step step).1 = s.setObject step.id object) ∨
      ∃ id u object, step = .use id u ∧ s.objects.get? id = some object ∧
        s.step step = s.use id object u := by
  cases step with
  | newScope id => exact .inr (.inl ⟨.scope _, _, rfl, nofun, hs.newScope, rfl⟩)
  | newEvaluator id expression order shared =>
      cases shared with
      | none =>
          exact .inr (.inl ⟨.evaluator s.scopes.length { expression, order }, _, rfl, nofun,
            hs.newScope, rfl⟩)
      | some other =>
          cases hother : s.objects.get? other with
          | none => exact .inl ⟨by simp only [step, hother], nofun⟩
          | some object =>
              refine .inr (.inr (.inl ⟨.evaluator object.index { expression, order }, other, object,
                hother, rfl, nofun, ?_⟩))
              simp only [step, hother, Step.id]
  | use id u =>
      cases hid : s.objects.get? id with
      | none =>
          refine .inl ⟨by simp only [step, hid], fun name _ huse => ?_⟩
          obtain ⟨rfl, -⟩ := Step.use.inj huse
          exact hid
      | some object => exact .inr (.inr (.inr ⟨id, u, object, rfl, hid, step_use hid u⟩))

theorem WellFormed.step (hs : s.WellFormed) (step : Step) : (s.step step).1.WellFormed := by
  rcases step_cases hs step with ⟨hnone, -⟩ | ⟨object, added, hindex, -, hadded, hnew⟩ |
    ⟨object, other, shared, hother, hindex, -, hnew⟩ | ⟨id, u, object, rfl, hid, huse⟩
  · rwa [hnone]
  · rw [hnew]
    exact hadded.setObject _ hindex
  · rw [hnew]
    exact hs.setObject _ (hindex ▸ hs.objects hother)
  · rw [huse]
    exact hs.use id (hs.objects hid) u

theorem limits_step (hs : s.WellFormed) (step : Step) : (s.step step).1.limits = s.limits := by
  rcases step_cases hs step with ⟨hnone, -⟩ | ⟨object, added, -, -, hadded, hnew⟩ |
    ⟨object, other, shared, -, -, -, hnew⟩ | ⟨id, u, object, rfl, hid, huse⟩
  · rw [hnone]
  · rw [hnew, limits_setObject, hadded.limits]
  · rw [hnew, limits_setObject]
  · rw [huse, limits_use hs id (hs.objects hid)]

theorem length_le_step (hs : s.WellFormed) (step : Step) :
    s.scopes.length ≤ (s.step step).1.scopes.length := by
  rcases step_cases hs step with ⟨hnone, -⟩ | ⟨object, added, -, -, hadded, hnew⟩ |
    ⟨object, other, shared, -, -, -, hnew⟩ | ⟨id, u, object, rfl, hid, huse⟩
  · simp [hnone]
  · simp [hnew, hadded.length]
  · simp [hnew]
  · rw [huse]
    exact length_le_use hs id (hs.objects hid) u

/-! ### Runs -/

/-- The session that steps lead to. -/
def after (s : Session) : List Step → Session
  | [] => s
  | step :: steps => (s.step step).1.after steps

/-- The session that steps lead to from nothing. -/
def ofSteps (limits : Limits) (steps : List Step) : Session := (empty limits).after steps

@[simp] theorem after_nil : s.after [] = s := rfl

@[simp] theorem after_cons (step : Step) (steps : List Step) :
    s.after (step :: steps) = (s.step step).1.after steps := rfl

@[simp] theorem run_cons (step : Step) (steps : List Step) :
    s.run (step :: steps) =
      ((s.step step).2, (s.step step).1.view? step.id) :: (s.step step).1.run steps := rfl

/-- What holds of a session and goes along each step holds of every session that it leads to. -/
theorem after_induction {P : Session → Prop} (hstep : ∀ s step, P s → P (s.step step).1)
    (hs : P s) (steps : List Step) : P (s.after steps) := by
  induction steps generalizing s with
  | nil => exact hs
  | cons step steps ih => exact ih (hstep s step hs)

theorem WellFormed.after (hs : s.WellFormed) (steps : List Step) : (s.after steps).WellFormed :=
  after_induction (fun _ step h => h.step step) hs steps

theorem wellFormed_ofSteps (limits : Limits) (steps : List Step) :
    (ofSteps limits steps).WellFormed :=
  (wellFormed_empty limits).after steps

theorem limits_after (hs : s.WellFormed) (steps : List Step) :
    (s.after steps).limits = s.limits := by
  have hboth : (s.after steps).WellFormed ∧ (s.after steps).limits = s.limits :=
    after_induction (P := fun t => t.WellFormed ∧ t.limits = s.limits)
      (fun _ step ⟨ht, h⟩ => ⟨ht.step step, (limits_step ht step).trans h⟩) ⟨hs, rfl⟩ steps
  exact hboth.2

@[simp] theorem limits_ofSteps (limits : Limits) (steps : List Step) :
    (ofSteps limits steps).limits = limits :=
  limits_after (wellFormed_empty limits) steps

/-! ### What has been written -/

/-- The use that a step makes of an object on a given scope. -/
def useOn? (s : Session) (index : Nat) : Step → Option Use
  | .use id u => if (s.objects.get? id).map Object.index = some index then some u else none
  | _ => none

/-- The uses that steps make of the objects on a scope, in order. -/
def usesOn (s : Session) (index : Nat) : List Step → List Use
  | [] => []
  | step :: steps => (s.useOn? index step).toList ++ (s.step step).1.usesOn index steps

theorem useOn?_eq_none {step : Step}
    (h : ∀ id u, step = .use id u → s.objects.get? id = none) (index : Nat) :
    s.useOn? index step = none := by
  cases step with
  | use id u => simp [useOn?, h id u rfl]
  | newScope | newEvaluator => rfl

theorem scopeAt_step (hs : s.WellFormed) (step : Step) {i : Nat} (hi : i < s.scopes.length) :
    (s.step step).1.scopeAt i = (s.scopeAt i).written (s.useOn? i step).toList := by
  rcases step_cases hs step with ⟨hnone, hfound⟩ | ⟨object, added, -, hno, hadded, hnew⟩ |
    ⟨object, other, shared, -, -, hno, hnew⟩ | ⟨id, u, object, rfl, hid, huse⟩
  · rw [hnone, useOn?_eq_none hfound]
    rfl
  · rw [hnew, useOn?_eq_none fun id u h => absurd h (hno id u), scopeAt_setObject,
      hadded.scopeAt, if_neg (Nat.ne_of_lt hi)]
    rfl
  · rw [hnew, useOn?_eq_none fun id u h => absurd h (hno id u), scopeAt_setObject]
    rfl
  · rw [huse, scopeAt_use hs (hs.objects hid) id u hi]
    by_cases h : i = object.index
    · simp [useOn?, hid, h, Scope.written]
    · simp [useOn?, hid, h, Ne.symm h, Scope.written]

/-- The tables of a scope after steps: what the uses of the objects on it have made of them, whichever
objects these were. -/
theorem scopeAt_after (hs : s.WellFormed) {i : Nat} (hi : i < s.scopes.length)
    (steps : List Step) :
    (s.after steps).scopeAt i = (s.scopeAt i).written (s.usesOn i steps) := by
  induction steps generalizing s with
  | nil => rfl
  | cons step steps ih =>
      rw [after_cons, ih (hs.step step) (Nat.lt_of_lt_of_le hi (length_le_step hs step)),
        scopeAt_step hs step hi, usesOn, Scope.written_append]

end Session
end Reckoner
