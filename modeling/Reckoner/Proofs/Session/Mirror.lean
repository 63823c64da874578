import Mathlib.Logic.Function.Basic
import Reckoner.Proofs.Session.Run

/-!
Two sessions side by side. One mirrors another, up to the numbers that its scopes have got, in all
that is outside a region of scopes; and if memory is left out, then evaluators may differ in what
they remember. Steps outside the region go on alike in both, and steps inside it, taken in the one
session alone, change nothing of that.
-/

namespace Reckoner

/-! ### Objects alike -/

/-- An evaluator has to evaluate what another has; what they remember is the same, if memory
counts. -/
structure Evaluator.Like (memory : Prop) (e e' : Evaluator) : Prop where
  expression : e.expression = e'.expression
  order : e.order = e'.order
  held : memory → e.tokens = e'.tokens ∧ e.cursor = e'.cursor

namespace Evaluator

variable {memory : Prop} {e e' : Evaluator}

theorem Like.refl (memory : Prop) (e : Evaluator) : e.Like memory e :=
  ⟨rfl, rfl, fun _ => ⟨rfl, rfl⟩⟩

theorem Like.setExpression (h : e.Like memory e') (expression : String) :
    Like memory { e with expression } { e' with expression } :=
  ⟨rfl, h.order, h.held⟩

theorem Like.setOrder (h : e.Like memory e') (order : PowerOrder) :
    Like memory { e with order } { e' with order } :=
  ⟨h.expression, rfl, h.held⟩

/-- No evaluation depends on what is remembered. -/
theorem Like.evaluate (h : e.Like memory e') (limits : Limits) (scope : Scope) :
    (e.evaluate limits scope).2 = (e'.evaluate limits scope).2 ∧
      (e.evaluate limits scope).1.Like memory (e'.evaluate limits scope).1 := by
  simp only [Evaluator.evaluate, ← h.expression, ← h.order]
  cases (Reckoner.evaluate limits scope e.order e.expression).tokens? with
  | none => exact ⟨rfl, h⟩
  | some tokens => exact ⟨rfl, rfl, rfl, fun _ => ⟨rfl, rfl⟩⟩

theorem Like.current (h : e.Like memory e') (hmemory : memory) : e.current = e'.current := by
  unfold Evaluator.current
  rw [(h.held hmemory).1, (h.held hmemory).2]

end Evaluator

/-- Objects of the same kind, the scope of one renumbered to that of the other. -/
inductive Object.Like (memory : Prop) (f : Nat → Nat) : Object → Object → Prop
  | scope {i j : Nat} (hindex : f i = j) : Like memory f (.scope i) (.scope j)
  | evaluator {i j : Nat} {e e' : Evaluator} (hindex : f i = j) (h : e.Like memory e') :
      Like memory f (.evaluator i e) (.evaluator j e')

namespace Object.Like

variable {memory : Prop} {f g : Nat → Nat} {object object' : Object}

theorem index (h : object.Like memory f object') : f object.index = object'.index := by
  cases h with
  | scope hindex => exact hindex
  | evaluator hindex => exact hindex

theorem congr (h : object.Like memory f object') (hfg : g object.index = f object.index) :
    object.Like memory g object' := by
  cases h with
  | scope hindex => exact .scope (hfg.trans hindex)
  | evaluator hindex h => exact .evaluator (hfg.trans hindex) h

end Object.Like

namespace Session

/-- A scope that is there and is not of the region. -/
def Keeps (s : Session) (region : List Nat) (index : Nat) : Prop :=
  index < s.scopes.length ∧ index ∉ region

theorem Written.keeps_iff {s next : Session} {index : Nat} {scope : Scope}
    (h : s.Written index scope next) {region : List Nat} {i : Nat} :
    next.Keeps region i ↔ s.Keeps region i := by
  rw [Keeps, h.length, Keeps]

/-- The second session has the scopes of the first that are outside the region, and the objects on
them. -/
structure Mirrors (memory : Prop) (region : List Nat) (f : Nat → Nat) (s t : Session) : Prop where
  wellFormed : s.WellFormed
  mirrored : t.WellFormed
  limits : t.limits = s.limits
  inside : ∀ i ∈ region, i < s.scopes.length
  missing : ∀ id, s.objects.get? id = none → t.objects.get? id = none
  found : ∀ id object, s.objects.get? id = some object → object.index ∉ region →
    ∃ object', t.objects.get? id = some object' ∧ object.Like memory f object'
  bound : ∀ i, s.Keeps region i → f i < t.scopes.length
  scope : ∀ i, s.Keeps region i → t.scopeAt (f i) = s.scopeAt i
  injective : ∀ i j, s.Keeps region i → s.Keeps region j → f i = f j → i = j

namespace Mirrors

variable {memory : Prop} {region : List Nat} {f : Nat → Nat} {s t : Session}

/-- A session mirrors itself. -/
theorem refl (memory : Prop) (hs : s.WellFormed) (hinside : ∀ i ∈ region, i < s.scopes.length) :
    s.Mirrors memory region id s where
  wellFormed := hs
  mirrored := hs
  limits := rfl
  inside := hinside
  missing _ h := h
  found
    | _, .scope _, h, _ => ⟨_, h, .scope rfl⟩
    | _, .evaluator _ e, h, _ => ⟨_, h, .evaluator rfl (.refl memory e)⟩
  bound _ h := h.1
  scope _ _ := rfl
  injective _ _ _ _ h := h

/-! ### Changes in both -/

theorem setObject (h : s.Mirrors memory region f t) (id : String) {object object' : Object}
    (hlike : object.Like memory f object') (hkept : s.Keeps region object.index) :
    (s.setObject id object).Mirrors memory region f (t.setObject id object') where
  wellFormed := h.wellFormed.setObject id hkept.1
  mirrored := h.mirrored.setObject id (hlike.index ▸ h.bound _ hkept)
  limits := h.limits
  inside := h.inside
  missing name hname := by
    rw [get?_setObject] at hname ⊢
    by_cases hsame : name = id
    · rw [if_pos hsame] at hname
      cases hname
    · rw [if_neg hsame] at hname ⊢
      exact h.missing name hname
  found name found hname hout := by
    rw [get?_setObject] at hname ⊢
    by_cases hsame : name = id
    · rw [if_pos hsame] at hname ⊢
      obtain rfl := Option.some.inj hname
      exact ⟨object', rfl, hlike⟩
    · rw [if_neg hsame] at hname ⊢
      exact h.found name found hname hout
  bound := h.bound
  scope := h.scope
  injective := h.injective

variable {s' t' : Session} {scope : Scope}

theorem written (h : s.Mirrors memory region f t) {index : Nat} (hindex : s.Keeps region index)
    (hs : s.Written index scope s') (ht : t.Written (f index) scope t') :
    s'.Mirrors memory region f t' where
  wellFormed := hs.wellFormed
  mirrored := ht.wellFormed
  limits := by rw [hs.limits, ht.limits, h.limits]
  inside i hi := by
    rw [hs.length]
    exact h.inside i hi
  missing id hid := by
    rw [ht.objects]
    exact h.missing id (hs.objects ▸ hid)
  found id object hid hout := by
    rw [ht.objects]
    exact h.found id object (hs.objects ▸ hid) hout
  bound i hi := by
    rw [ht.length]
    exact h.bound i (hs.keeps_iff.1 hi)
  scope i hi := by
    rw [hs.keeps_iff] at hi
    rw [ht.scopeAt, hs.scopeAt]
    by_cases hsame : i = index
    · rw [if_pos hsame, if_pos (congrArg f hsame)]
    · have hother : f i ≠ f index := fun hf => hsame (h.injective i index hi hindex hf)
      rw [if_neg hsame, if_neg hother, h.scope i hi]
  injective i j hi hj := h.injective i j (hs.keeps_iff.1 hi) (hs.keeps_iff.1 hj)

/-- The new scope of the one is renumbered to the new scope of the other. -/
theorem added (h : s.Mirrors memory region f t) (hs : s.Added scope s') (ht : t.Added scope t') :
    s'.Mirrors memory region (Function.update f s.scopes.length t.scopes.length) t' := by
  have hold : ∀ i, i < s.scopes.length →
      Function.update f s.scopes.length t.scopes.length i = f i := fun i hi =>
    Function.update_of_ne (Nat.ne_of_lt hi) ..
  have hnew : Function.update f s.scopes.length t.scopes.length s.scopes.length = t.scopes.length :=
    Function.update_self ..
  have hkeeps : ∀ i, s'.Keeps region i → s.Keeps region i ∨ i = s.scopes.length := by
    rintro i ⟨hi, hout⟩
    rw [hs.length] at hi
    rcases Nat.lt_succ_iff_lt_or_eq.1 hi with hlt | heq
    · exact .inl ⟨hlt, hout⟩
    · exact .inr heq
  exact {
    wellFormed := hs.wellFormed
    mirrored := ht.wellFormed
    limits := by rw [hs.limits, ht.limits, h.limits]
    inside := by
      intro i hi
      rw [hs.length]
      exact Nat.lt_succ_of_lt (h.inside i hi)
    missing := by
      intro id hid
      rw [ht.objects]
      exact h.missing id (hs.objects ▸ hid)
    found := by
      intro id object hid hout
      rw [hs.objects] at hid
      obtain ⟨object', hid', hlike⟩ := h.found id object hid hout
      rw [ht.objects]
      exact ⟨object', hid', hlike.congr (hold _ (h.wellFormed.objects hid))⟩
    bound := by
      intro i hi
      rw [ht.length]
      rcases hkeeps i hi with hi | rfl
      · rw [hold i hi.1]
        exact Nat.lt_succ_of_lt (h.bound i hi)
      · rw [hnew]
        exact Nat.lt_succ_self _
    scope := by
      intro i hi
      rw [hs.scopeAt, ht.scopeAt]
      rcases hkeeps i hi with hi | rfl
      · rw [hold i hi.1, if_neg (Nat.ne_of_lt (h.bound i hi)), if_neg (Nat.ne_of_lt hi.1),
          h.scope i hi]
      · rw [hnew, if_pos rfl, if_pos rfl]
    injective := by
      intro i j hi hj hf
      rcases hkeeps i hi with hi | rfl
      · rcases hkeeps j hj with hj | rfl
        · rw [hold i hi.1, hold j hj.1] at hf
          exact h.injective i j hi hj hf
        · rw [hold i hi.1, hnew] at hf
          exact absurd hf (Nat.ne_of_lt (h.bound i hi))
      · rcases hkeeps j hj with hj | rfl
        · rw [hold j hj.1, hnew] at hf
          exact absurd hf.symm (Nat.ne_of_lt (h.bound j hj))
        · rfl }

/-- A scope is added to both, and an object made that works on it. -/
theorem addObject (h : s.Mirrors memory region f t) (hs : s.Added scope s')
    (ht : t.Added scope t') (id : String) {object object' : Object}
    (hindex : object.index = s.scopes.length)
    (hlike : object.Like memory (Function.update f s.scopes.length t.scopes.length) object') :
    ∃ g, (s'.setObject id object).Mirrors memory region g (t'.setObject id object') := by
  have hkept : s'.Keeps region object.index := by
    rw [Keeps, hindex, hs.length]
    exact ⟨Nat.lt_succ_self _, fun hmem => Nat.lt_irrefl _ (h.inside _ hmem)⟩
  exact ⟨_, (h.added hs ht).setObject id hlike hkept⟩

/-- What a merge has come to is written in both. -/
theorem merge (h : s.Mirrors memory region f t) {index : Nat} (hkept : s.Keeps region index)
    {merged : Scope × Option ValueFault}
    (hconstants : merged.1.constants = (s.scopeAt index).constants) :
    (s.merge index merged).1.Mirrors memory region f (t.merge (f index) merged).1 := by
  have hmirrored : merged.1.constants = (t.scopeAt (f index)).constants := by
    rw [h.scope index hkept, hconstants]
  exact h.written hkept (h.wellFormed.merge hkept.1 hconstants)
    (h.mirrored.merge (h.bound index hkept) hmirrored)

/-! ### Steps outside the region -/

/-- A use has the same answer in both, and they go on alike. Only to ask for what is remembered takes
memory. -/
theorem use (h : s.Mirrors memory region f t) {object object' : Object}
    (hlike : object.Like memory f object') (hkept : s.Keeps region object.index) (id : String)
    {u : Use} (hu : u = .current → memory) :
    (s.use id object u).2 = (t.use id object' u).2 ∧
      ∃ g, (s.use id object u).1.Mirrors memory region g (t.use id object' u).1 := by
  have hindex : object'.index = f object.index := hlike.index.symm
  have hscope : t.scopeAt (f object.index) = s.scopeAt object.index := h.scope _ hkept
  have hbound : f object.index < t.scopes.length := h.bound _ hkept
  cases u with
  | copy name =>
      have hs := h.wellFormed.copyScope hkept.1
      have ht := h.mirrored.copyScope hbound
      rw [hscope, ← hindex] at ht
      exact ⟨rfl, h.addObject hs ht name rfl (.scope (Function.update_self ..))⟩
  | add values =>
      simp only [Session.use, hindex, hscope]
      exact ⟨rfl, f, h.merge hkept (Scope.constants_add ..)⟩
  | update values =>
      simp only [Session.use, hindex, hscope]
      exact ⟨rfl, f, h.merge hkept (Scope.constants_update ..)⟩
  | setConstant name value =>
      have hs := h.wellFormed.setConstants hkept.1
      have ht := h.mirrored.setConstants hbound
      simp only [Session.use, hindex, hscope, true_and] at hs ht ⊢
      exact ⟨f, h.written hkept (hs _) (ht _)⟩
  | setExpression expression =>
      cases hlike with
      | scope => exact ⟨rfl, f, h⟩
      | evaluator hnumber he =>
          exact ⟨rfl, f, h.setObject id (.evaluator hnumber (he.setExpression expression)) hkept⟩
  | setOrder order =>
      cases hlike with
      | scope => exact ⟨rfl, f, h⟩
      | evaluator hnumber he =>
          exact ⟨rfl, f, h.setObject id (.evaluator hnumber (he.setOrder order)) hkept⟩
  | evaluate =>
      cases hlike with
      | scope => exact ⟨rfl, f, h⟩
      | @evaluator i j e e' hnumber he =>
          obtain ⟨hresult, hnext⟩ := he.evaluate s.limits (s.scopeAt i)
          have hscope : t.scopeAt j = s.scopeAt i := hnumber ▸ hscope
          simp only [Session.use, h.limits, hscope, hresult, true_and]
          exact ⟨f, h.setObject id (.evaluator hnumber hnext) hkept⟩
  | current =>
      cases hlike with
      | scope => exact ⟨rfl, f, h⟩
      | evaluator _ he =>
          simp only [Session.use, he.current (hu rfl), true_and]
          exact ⟨f, h⟩
  | function name => exact ⟨rfl, f, h⟩
  | role | constant | variableValue | hasVariable =>
      simp only [Session.use, hindex, hscope, true_and]
      exact ⟨f, h⟩

end Mirrors

/-- The object that a step is about: the one that it uses, or whose scope it shares. A step that finds
none to share leaves the object of its own name. -/
def subject? (s : Session) : Step → Option Object
  | .newScope _ | .newEvaluator _ _ _ none => none
  | .newEvaluator id _ _ (some other) => (s.objects.get? other).or (s.objects.get? id)
  | .use id _ => s.objects.get? id

/-- A step has nothing to do with the scopes of a region. -/
def Spares (s : Session) (region : List Nat) (step : Step) : Prop :=
  ∀ object, s.subject? step = some object → object.index ∉ region

namespace Mirrors

variable {memory : Prop} {region : List Nat} {f : Nat → Nat} {s t : Session}

/-- A step outside the region has the same answer in both, and they go on alike. -/
theorem step (h : s.Mirrors memory region f t) {step : Step} (hstep : s.Spares region step)
    (hcurrent : ∀ id, step = .use id .current → memory) :
    (s.step step).2 = (t.step step).2 ∧
      ∃ g, (s.step step).1.Mirrors memory region g (t.step step).1 := by
  cases step with
  | newScope id =>
      exact ⟨rfl, h.addObject h.wellFormed.newScope h.mirrored.newScope id rfl
        (.scope (Function.update_self ..))⟩
  | newEvaluator id expression order shared =>
      cases shared with
      | none =>
          exact ⟨rfl, h.addObject h.wellFormed.newScope h.mirrored.newScope id rfl
            (.evaluator (Function.update_self ..) (.refl memory _))⟩
      | some other =>
          cases hother : s.objects.get? other with
          | none =>
              simp only [Session.step, hother, h.missing other hother, true_and]
              exact ⟨f, h⟩
          | some object =>
              have hout := hstep object (by rw [subject?, hother, Option.some_or])
              obtain ⟨object', hother', hlike⟩ := h.found other object hother hout
              simp only [Session.step, hother, hother', true_and]
              have hkept : s.Keeps region object.index := ⟨h.wellFormed.objects hother, hout⟩
              exact ⟨f, h.setObject id (.evaluator hlike.index (.refl memory _)) hkept⟩
  | use id u =>
      cases hid : s.objects.get? id with
      | none =>
          simp only [Session.step, hid, h.missing id hid, true_and]
          exact ⟨f, h⟩
      | some object =>
          have hout := hstep object hid
          obtain ⟨object', hid', hlike⟩ := h.found id object hid hout
          rw [step_use hid, step_use hid']
          exact h.use hlike ⟨h.wellFormed.objects hid, hout⟩ id fun hu => hcurrent id (by rw [hu])

/-- What is to be seen of an object outside the region, if memory counts. -/
theorem view? (h : s.Mirrors True region f t) {id : String}
    (hid : ∀ object, s.objects.get? id = some object → object.index ∉ region) :
    s.view? id = t.view? id := by
  unfold Session.view?
  cases hs : s.objects.get? id with
  | none => rw [h.missing id hs]; rfl
  | some object =>
      have hout := hid object hs
      obtain ⟨object', ht, hlike⟩ := h.found id object hs hout
      have hscope : t.scopeAt object'.index = s.scopeAt object.index := by
        rw [← hlike.index, h.scope _ ⟨h.wellFormed.objects hs, hout⟩]
      rw [ht, Option.map_some, Option.map_some, hscope]
      cases hlike with
      | scope => rfl
      | evaluator _ he =>
          obtain ⟨htokens, hcursor⟩ := he.held trivial
          simp only [Object.index, htokens, hcursor]

end Mirrors
end Session
end Reckoner
