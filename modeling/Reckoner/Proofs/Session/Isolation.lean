import Reckoner.Proofs.Session.Sharing

/-!
Sides of a session. A side is a region of scopes, with the objects on them and with whatever is
copied from them later. A session in which the steps of one side are left out answers all other steps
alike; so a scope and its copy are apart from the moment of copying.
-/

namespace Reckoner.Session

/-! ### Leaving out a side -/

instance (s : Session) (region : List Nat) (step : Step) : Decidable (s.Spares region step) :=
  inferInstanceAs (Decidable (∀ object ∈ s.subject? step, object.index ∉ region))

/-- The region behind one of its own steps: a copy that it makes is of the region too. -/
def grow (s : Session) (region : List Nat) : Step → List Nat
  | .use _ (.copy _) => s.scopes.length :: region
  | _ => region

/-- The steps that are not of the side of a region, each with its answer and with what is then to be
seen, in the session where all the steps are taken. -/
def outside (s : Session) (region : List Nat) : List Step → List (Step × Answer × Option View)
  | [] => []
  | step :: steps =>
    if s.Spares region step then
      (step, (s.step step).2, (s.step step).1.view? step.id) :: (s.step step).1.outside region steps
    else (s.step step).1.outside (s.grow region step) steps

variable {memory : Prop} {region : List Nat} {f : Nat → Nat} {s t : Session}

theorem outside_cons_spared {step : Step} (h : s.Spares region step) (steps : List Step) :
    s.outside region (step :: steps) =
      (step, (s.step step).2, (s.step step).1.view? step.id) ::
        (s.step step).1.outside region steps := by
  rw [outside, if_pos h]

theorem outside_cons_left {step : Step} (h : ¬s.Spares region step) (steps : List Step) :
    s.outside region (step :: steps) = (s.step step).1.outside (s.grow region step) steps := by
  rw [outside, if_neg h]

/-- Only scopes that are new come to a region. -/
theorem mem_grow {step : Step} {i : Nat} (h : i ∈ s.grow region step) :
    i ∈ region ∨ i = s.scopes.length := by
  unfold grow at h
  split at h
  · exact (List.mem_cons.1 h).symm
  · exact .inl h

theorem grow_of_not_copy (s : Session) (region : List Nat) (id : String) {u : Use}
    (h : ∀ name, u ≠ .copy name) : s.grow region (.use id u) = region := by
  cases u with
  | copy name => exact absurd rfl (h name)
  | _ => rfl

/-- No step on a scope outside is left out. -/
theorem mem_outside (hs : s.WellFormed) {index : Nat} (hindex : s.Keeps region index)
    {front : List Step} {step : Step}
    {object : Object} (hobject : (s.after front).subject? step = some object)
    (hon : object.index = index) (behind : List Step) :
    (step, ((s.after front).step step).2, ((s.after front).step step).1.view? step.id) ∈
      s.outside region (front ++ step :: behind) := by
  induction front generalizing s region with
  | nil =>
      have hspared : s.Spares region step := by
        intro object' hobject'
        obtain rfl : object = object' := Option.some.inj (hobject.symm.trans hobject')
        exact hon ▸ hindex.2
      rw [List.nil_append, outside_cons_spared hspared]
      exact List.mem_cons_self
  | cons first front ih =>
      have hlt : index < (s.step first).1.scopes.length :=
        Nat.lt_of_lt_of_le hindex.1 (length_le_step hs first)
      rw [List.cons_append]
      by_cases hspared : s.Spares region first
      · rw [outside_cons_spared hspared]
        exact List.mem_cons_of_mem _ (ih (hs.step first) ⟨hlt, hindex.2⟩ hobject)
      · have hout : index ∉ s.grow region first := fun hmem =>
          (mem_grow hmem).elim hindex.2 (Nat.ne_of_lt hindex.1)
        rw [outside_cons_left hspared]
        exact ih (hs.step first) ⟨hlt, hout⟩ hobject

/-! ### Steps of the side, taken in the first session alone -/

namespace Mirrors

theorem skipObject (h : s.Mirrors memory region f t) (id : String) {object : Object}
    (hin : object.index ∈ region) : (s.setObject id object).Mirrors memory region f t where
  wellFormed := h.wellFormed.setObject id (h.inside _ hin)
  mirrored := h.mirrored
  limits := h.limits
  inside := h.inside
  missing name hname := by
    rw [get?_setObject] at hname
    split at hname
    · cases hname
    · exact h.missing name hname
  found name found hname hout := by
    rw [get?_setObject] at hname
    split at hname
    · obtain rfl := Option.some.inj hname
      exact absurd hin hout
    · exact h.found name found hname hout
  bound := h.bound
  scope := h.scope
  injective := h.injective

variable {next : Session} {scope : Scope}

theorem skipWritten (h : s.Mirrors memory region f t) {index : Nat} (hin : index ∈ region)
    (hs : s.Written index scope next) : next.Mirrors memory region f t where
  wellFormed := hs.wellFormed
  mirrored := h.mirrored
  limits := h.limits.trans hs.limits.symm
  inside i hi := by
    rw [hs.length]
    exact h.inside i hi
  missing id hid := h.missing id (hs.objects ▸ hid)
  found id object hid := h.found id object (hs.objects ▸ hid)
  bound i hi := h.bound i (hs.keeps_iff.1 hi)
  scope i hi := by
    have hne : i ≠ index := by
      rintro rfl
      exact hi.2 hin
    rw [hs.scopeAt, if_neg hne, h.scope i (hs.keeps_iff.1 hi)]
  injective i j hi hj := h.injective i j (hs.keeps_iff.1 hi) (hs.keeps_iff.1 hj)

theorem skipAdded (h : s.Mirrors memory region f t) (hs : s.Added scope next) :
    next.Mirrors memory (s.scopes.length :: region) f t := by
  have hkeeps : ∀ i, next.Keeps (s.scopes.length :: region) i → s.Keeps region i := by
    rintro i ⟨hi, hout⟩
    rw [hs.length] at hi
    obtain ⟨hne, hout⟩ := not_or.1 (mt List.mem_cons.2 hout)
    exact ⟨Nat.lt_of_le_of_ne (Nat.le_of_lt_succ hi) hne, hout⟩
  exact {
    wellFormed := hs.wellFormed
    mirrored := h.mirrored
    limits := h.limits.trans hs.limits.symm
    inside := by
      intro i hi
      rw [hs.length]
      rcases List.mem_cons.1 hi with rfl | hi
      · exact Nat.lt_succ_self _
      · exact Nat.lt_succ_of_lt (h.inside i hi)
    missing := fun id hid => h.missing id (hs.objects ▸ hid)
    found := fun id object hid hout =>
      h.found id object (hs.objects ▸ hid) (mt (List.mem_cons_of_mem _) hout)
    bound := fun i hi => h.bound i (hkeeps i hi)
    scope := by
      intro i hi
      rw [hs.scopeAt, if_neg (Nat.ne_of_lt (hkeeps i hi).1), h.scope i (hkeeps i hi)]
    injective := fun i j hi hj => h.injective i j (hkeeps i hi) (hkeeps j hj) }

/-- A step of the side changes nothing outside, where it has not been taken. -/
theorem skip (h : s.Mirrors memory region f t) {step : Step} (hstep : ¬s.Spares region step) :
    (s.step step).1.Mirrors memory (s.grow region step) f t := by
  obtain ⟨object, hobject, hin⟩ : ∃ object, s.subject? step = some object ∧
      object.index ∈ region := by
    simpa [Spares] using hstep
  cases step with
  | newScope id => cases hobject
  | newEvaluator id expression order shared =>
      cases shared with
      | none => cases hobject
      | some other =>
          cases hother : s.objects.get? other with
          | none =>
              simp only [Session.step, hother]
              exact h
          | some found =>
              obtain rfl : found = object := by
                simpa [subject?, hother] using hobject
              simp only [Session.step, hother]
              exact h.skipObject id hin
  | use id u =>
      have hid : s.objects.get? id = some object := hobject
      rw [step_use hid]
      by_cases hcopy : ∃ name, u = .copy name
      · obtain ⟨name, rfl⟩ := hcopy
        have hcopied := h.wellFormed.copyScope (h.wellFormed.objects hid)
        exact (h.skipAdded hcopied).skipObject name List.mem_cons_self
      · have hnot : ∀ name, u ≠ .copy name := fun name hu => hcopy ⟨name, hu⟩
        rw [s.grow_of_not_copy region id hnot]
        rcases use_cases h.wellFormed id (h.wellFormed.objects hid) u with ⟨hnone, -⟩ |
          ⟨name, -, hu, -⟩ | hwritten | ⟨index, e, e', rfl, hchanged, -⟩
        · rwa [hnone]
        · exact absurd hu (hnot name)
        · exact h.skipWritten hin hwritten
        · rw [hchanged]
          exact h.skipObject id hin

end Mirrors

theorem index_of_found_use (hs : s.WellFormed) {id : String} {object found : Object} {u : Use}
    (hid : s.objects.get? id = some object)
    (hfound : (s.use id object u).1.objects.get? id = some found) :
    found.index = s.scopes.length ∨ found.index = object.index := by
  rcases use_cases hs id (hs.objects hid) u with ⟨hnone, -⟩ | ⟨name, copied, -, hcopied, hcopy⟩ |
    hwritten | ⟨index, e, e', rfl, hchanged, -⟩
  · rw [hnone, hid] at hfound
    exact .inr (Option.some.inj hfound ▸ rfl)
  · rw [hcopy, get?_setObject] at hfound
    split at hfound
    · exact .inl (Option.some.inj hfound ▸ rfl)
    · rw [hcopied.objects, hid] at hfound
      exact .inr (Option.some.inj hfound ▸ rfl)
  · rw [hwritten.objects, hid] at hfound
    exact .inr (Option.some.inj hfound ▸ rfl)
  · rw [hchanged, get?_setObject_self] at hfound
    exact .inr (Option.some.inj hfound ▸ rfl)

/-- Behind a step, the object of its name is on a new scope or on that of the object which the step
was about. -/
theorem index_of_found_step (hs : s.WellFormed) {step : Step} {found : Object}
    (hfound : (s.step step).1.objects.get? step.id = some found) :
    found.index = s.scopes.length ∨
      ∃ object, s.subject? step = some object ∧ found.index = object.index := by
  cases step with
  | newScope id =>
      obtain rfl := Option.some.inj ((get?_setObject_self ..).symm.trans hfound)
      exact .inl rfl
  | newEvaluator id expression order shared =>
      cases shared with
      | none =>
          obtain rfl := Option.some.inj ((get?_setObject_self ..).symm.trans hfound)
          exact .inl rfl
      | some other =>
          cases hother : s.objects.get? other with
          | none =>
              simp only [step, hother, Step.id] at hfound
              exact .inr ⟨found, by rw [subject?, hother, Option.none_or, hfound], rfl⟩
          | some object =>
              simp only [step, hother] at hfound
              obtain rfl := Option.some.inj ((get?_setObject_self ..).symm.trans hfound)
              exact .inr ⟨object, by rw [subject?, hother, Option.some_or], rfl⟩
  | use id u =>
      cases hid : s.objects.get? id with
      | none =>
          simp only [step, hid, Step.id] at hfound
          cases hfound
      | some object =>
          rw [step_use hid] at hfound
          exact (index_of_found_use hs hid hfound).imp_right fun hindex => ⟨object, hid, hindex⟩

/-- Behind a step outside the region, the object of its name is outside as well. -/
theorem Spares.found (hs : s.WellFormed) (hinside : ∀ i ∈ region, i < s.scopes.length)
    {step : Step} (hstep : s.Spares region step) {object : Object}
    (hobject : (s.step step).1.objects.get? step.id = some object) : object.index ∉ region := by
  intro hmem
  rcases index_of_found_step hs hobject with hnew | ⟨subject, hsubject, hindex⟩
  · exact absurd (hinside _ hmem) (hnew ▸ Nat.lt_irrefl _)
  · exact hstep subject hsubject (hindex ▸ hmem)

/-- The steps outside a region have the same answers, and the same is to be seen, if the steps of the
side are left out. -/
theorem run_outside (h : s.Mirrors True region f t) (steps : List Step) :
    t.run ((s.outside region steps).map fun kept => kept.1) =
      (s.outside region steps).map fun kept => kept.2 := by
  induction steps generalizing s t region f with
  | nil => rfl
  | cons step steps ih =>
      by_cases hstep : s.Spares region step
      · obtain ⟨hanswer, g, hnext⟩ := h.step hstep fun _ _ => trivial
        have hview : (s.step step).1.view? step.id = (t.step step).1.view? step.id :=
          hnext.view? fun object hobject => hstep.found h.wellFormed h.inside hobject
        rw [outside_cons_spared hstep, List.map_cons, List.map_cons, run_cons, ih hnext, hanswer,
          hview]
      · rw [outside_cons_left hstep]
        exact ih (h.skip hstep)

/-! ### A scope and its copy -/

theorem step_copy {id name : String} {object : Object} (hid : s.objects.get? id = some object) :
    (s.step (.use id (.copy name))).1 =
      (s.copyScope object.index).1.setObject name (.scope s.scopes.length) := by
  rw [step_use hid]
  rfl

/-- Copying a scope makes a side of its own. The copy is on tables that were not there before, and no
two scopes ever have a table in common. Whatever is done later on the copy, or on the evaluators and
the copies that come of it, can be left out with no change in any other answer, and none of what is
done on the original is left out so; and the same the other way round. Evaluators that share a scope
see the same tables, those that have been written through all its objects. And as long as no constant
has been set in the original, every expression is evaluated alike in the copy. -/
theorem copy_isolates_sharing_shares (limits : Limits) (history : List Step) {s copied : Session}
    (hs : s = ofSteps limits history) {original copy : String} {object : Object}
    (horiginal : s.objects.get? original = some object)
    (hcopied : (s.step (.use original (.copy copy))).1 = copied) :
    ∃ index, copied.objects.get? copy = some (.scope index) ∧ index ≠ object.index ∧
      (∃ cell, copied.scopes[index]? = some cell ∧
        ∀ address ∈ cell.addresses, s.tables.length ≤ address) ∧
      (∀ (later : List Step) (i j : Nat) (c c' : Cell), (copied.after later).scopes[i]? = some c →
        (copied.after later).scopes[j]? = some c' → i ≠ j → c.addresses.Disjoint c'.addresses) ∧
      (∀ side other, side = index ∧ other = object.index ∨ side = object.index ∧ other = index →
        ∀ later : List Step,
          copied.run ((copied.outside [side] later).map fun kept => kept.1) =
            ((copied.outside [side] later).map fun kept => kept.2) ∧
          ∀ front step behind (subject : Object), later = front ++ step :: behind →
            (copied.after front).subject? step = some subject → subject.index = other →
            (step, ((copied.after front).step step).2,
              ((copied.after front).step step).1.view? step.id) ∈ copied.outside [side] later) ∧
      (∀ (past later : List Step) (shared id expression : String) (order : PowerOrder)
        (subject : Object), (ofSteps limits past).objects.get? shared = some subject →
        (∀ step ∈ later, step.made? ≠ some id) →
        ∀ steps, steps = .newEvaluator id expression order (some shared) :: later →
          (∃ e, ((ofSteps limits past).after steps).objects.get? id =
            some (.evaluator subject.index e)) ∧
          ∀ other sharing, ((ofSteps limits past).after steps).objects.get? other = some sharing →
            sharing.index = subject.index →
            ((ofSteps limits past).after steps).Sees other
              (((ofSteps limits past).scopeAt subject.index).written
                ((ofSteps limits past).usesOn subject.index steps))) ∧
      ((∀ name value, .setConstant name value ∉ (empty limits).usesOn object.index history) →
        ∀ order text, evaluate limits (copied.scopeAt index) order text =
          evaluate limits (copied.scopeAt object.index) order text) := by
  have hwell : s.WellFormed := hs ▸ wellFormed_ofSteps limits history
  have hlt : object.index < s.scopes.length := hwell.objects horiginal
  have hcopiedWell : copied.WellFormed := hcopied ▸ hwell.step _
  have hadded := hwell.copyScope hlt
  obtain ⟨cell, hscopes, hfresh⟩ := hadded.fresh
  rw [step_copy horiginal] at hcopied
  have hlength : copied.scopes.length = s.scopes.length + 1 := by
    rw [← hcopied, scopes_setObject, hadded.length]
  refine ⟨s.scopes.length, hcopied ▸ get?_setObject_self .., Nat.ne_of_gt hlt, ?_, ?_, ?_, ?_, ?_⟩
  · refine ⟨cell, ?_, hfresh⟩
    rw [← hcopied, scopes_setObject, hscopes, List.getElem?_concat_length]
  · intro later i j c c' hc hc' hne
    exact (hcopiedWell.after later).disjoint hc hc' hne
  · intro side other hsides later
    have hside : side < copied.scopes.length := by omega
    have hother : copied.Keeps [side] other := by
      refine ⟨by omega, ?_⟩
      rw [List.mem_singleton]
      omega
    have hself : copied.Mirrors True [side] (fun i => i) copied :=
      .refl True hcopiedWell fun i hi => List.mem_singleton.1 hi ▸ hside
    refine ⟨run_outside hself later, ?_⟩
    rintro front step behind subject rfl hsubject hon
    exact mem_outside hcopiedWell hother hsubject hon behind
  · intro past later shared id expression order subject hshared hlater steps hsteps
    exact evaluators_share (wellFormed_ofSteps limits past) hshared id expression order hlater hsteps
  · intro hunset order text
    have hconstants : (s.scopeAt object.index).constants = Scope.builtin.constants :=
      hs ▸ constants_after (wellFormed_empty limits) hunset rfl
    rw [← hcopied, scopeAt_setObject, scopeAt_setObject, hadded.scopeAt, hadded.scopeAt,
      if_pos rfl, if_neg (Nat.ne_of_lt hlt), Scope.copy_eq_self hconstants]

/-- A constant that is set in the copy stays as it was in the original. -/
theorem copy_isolates_sharing_shares_set_constant :
    ∃ copied, ((ofSteps ⟨100, 1000⟩ [.newScope "r"]).step (.use "r" (.copy "c"))).1 = copied ∧
      copied.outside [1] [.use "c" (.setConstant "pi" 3), .use "r" (.constant "pi")] =
        [(.use "r" (.constant "pi"), .number Binary64.pi, some ⟨[], none⟩)] ∧
      copied.run [.use "r" (.constant "pi")] = [(.number Binary64.pi, some ⟨[], none⟩)] := by
  let copied : Session := ((ofSteps ⟨100, 1000⟩ [.newScope "r"]).step (.use "r" (.copy "c"))).1
  have horiginal : (ofSteps ⟨100, 1000⟩ [.newScope "r"]).objects.get? "r" = some (.scope 0) := by
    with_unfolding_all rfl
  have hcopied : ((ofSteps ⟨100, 1000⟩ [.newScope "r"]).step (.use "r" (.copy "c"))).1 = copied := rfl
  have hcopy : copied.objects.get? "c" = some (.scope 1) := by
    with_unfolding_all rfl
  have hkept : copied.outside [1] [.use "c" (.setConstant "pi" 3), .use "r" (.constant "pi")] =
      [(.use "r" (.constant "pi"), .number Binary64.pi, some ⟨[], none⟩)] := by
    with_unfolding_all rfl
  obtain ⟨index, hfound, -, -, -, hsides, -⟩ :=
    copy_isolates_sharing_shares ⟨100, 1000⟩ [.newScope "r"] rfl horiginal hcopied
  obtain rfl : index = 1 := by simpa [hcopy, eq_comm] using hfound
  have hrun := (hsides 1 0 (.inl ⟨rfl, rfl⟩)
    [.use "c" (.setConstant "pi" 3), .use "r" (.constant "pi")]).1
  rw [hkept] at hrun
  exact ⟨copied, hcopied, hkept, hrun⟩

end Reckoner.Session
