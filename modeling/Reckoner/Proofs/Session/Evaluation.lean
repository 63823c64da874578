import Reckoner.Proofs.Descent.Whole
import Reckoner.Proofs.Relevance
import Reckoner.Proofs.Session.Mirror

/-!
Evaluating in a session. The answer depends on the expression, the order of powers and the tables as
they are at the time; what was evaluated before, and what was remembered of it, has no say. And
nothing is changed by it but what the evaluator remembers.
-/

namespace Reckoner

/-- The answer with the result of an evaluation. -/
def Answer.ofResult : Except Halt Float → Answer
  | .ok x => .number x
  | .error h => .ofHalt h

theorem Answer.eq_ok_of_ofResult {result : Except Halt Float} {x : Float}
    (h : ofResult result = .number x) : result = .ok x := by
  cases result with
  | ok y =>
      obtain rfl := Answer.number.inj h
      rfl
  | error e => cases h

namespace Evaluator

variable (e : Evaluator) (limits : Limits) (scope : Scope)

theorem evaluate_result :
    (e.evaluate limits scope).2 = (Reckoner.evaluate limits scope e.order e.expression).result := by
  simp only [evaluate]
  split <;> rfl

/-- What is evaluated stays as it is. -/
theorem evaluate_keeps :
    (e.evaluate limits scope).1.expression = e.expression ∧
      (e.evaluate limits scope).1.order = e.order := by
  simp only [evaluate]
  split <;> exact ⟨rfl, rfl⟩

variable {limits scope e}

theorem evaluate_of_scan_error {fault : Fault}
    (h : Token.scan scope limits.length e.expression = .error fault) :
    e.evaluate limits scope = (e, .error (.fault fault)) := by
  simp only [evaluate, Reckoner.evaluate, h]

/-- What can be scanned is remembered, and a value is found right before the ending. -/
theorem evaluate_of_scan_ok {tokens : List Token}
    (h : Token.scan scope limits.length e.expression = .ok tokens) :
    (e.evaluate limits scope).1.tokens = tokens ∧
      ∀ x, (e.evaluate limits scope).2 = .ok x →
        ∃ body, tokens = body ++ [.ending] ∧ (e.evaluate limits scope).1.cursor = body.length := by
  have hevaluate : e.evaluate limits scope =
      ({ e with
          tokens
          cursor := ((wholeExpression scope e.order limits.frames).start tokens).cursor },
        ((wholeExpression scope e.order limits.frames).start tokens).result) := by
    simp only [evaluate, Reckoner.evaluate, h]
  rw [hevaluate]
  refine ⟨rfl, fun x hx => ?_⟩
  obtain ⟨body, rfl, hending, -⟩ := (Token.scan_eq_ok_iff.1 h).2.proper
  cases hrun : (wholeExpression scope e.order limits.frames).run (body ++ [.ending]) with
  | mk result rest =>
    obtain rfl : result = .ok x := by simpa [Reader.start, hrun] using hx
    obtain ⟨tree, behind, hts, rfl, -⟩ := wholeExpression_sound hrun
    obtain ⟨rfl, -, rfl⟩ := (List.append_cons_inj_of_notMem hending List.not_mem_nil).1 hts
    refine ⟨tree.tokens, rfl, ?_⟩
    rw [Reader.start_eq hrun]

end Evaluator

namespace Session

theorem use_evaluate (s : Session) (id : String) (index : Nat) (e : Evaluator) :
    s.use id (.evaluator index e) .evaluate =
      (s.setObject id (.evaluator index (e.evaluate s.limits (s.scopeAt index)).1),
        .ofResult (e.evaluate s.limits (s.scopeAt index)).2) := by
  simp only [use]
  cases (e.evaluate s.limits (s.scopeAt index)).2 <;> rfl

variable {s : Session} {id : String} {index : Nat} {e : Evaluator}

theorem step_evaluate (hid : s.objects.get? id = some (.evaluator index e)) :
    s.step (.use id .evaluate) =
      (s.setObject id (.evaluator index (e.evaluate s.limits (s.scopeAt index)).1),
        .ofResult (evaluate s.limits (s.scopeAt index) e.order e.expression).result) := by
  rw [step_use hid, use_evaluate, Evaluator.evaluate_result]

/-- An evaluation leaves the session as it was, but for what the evaluator remembers. -/
theorem mirrors_evaluate (hs : s.WellFormed)
    (hid : s.objects.get? id = some (.evaluator index e)) :
    Mirrors False [] (fun i => i) (s.step (.use id .evaluate)).1 s := by
  have hself : Mirrors False [] (fun i => i) s s := .refl False hs nofun
  obtain ⟨hexpression, horder⟩ := e.evaluate_keeps s.limits (s.scopeAt index)
  have hstep := hs.step (.use id .evaluate)
  rw [step_evaluate hid] at hstep ⊢
  refine { hself with wellFormed := hstep, missing := ?_, found := ?_ }
  · intro name hname
    rw [get?_setObject] at hname
    split at hname
    · cases hname
    · exact hname
  · intro name object hname hout
    rw [get?_setObject] at hname
    split at hname
    · rename_i hsame
      obtain rfl := Option.some.inj hname
      exact ⟨_, hsame ▸ hid, .evaluator rfl ⟨hexpression, horder, nofun⟩⟩
    · exact hself.found name object hname hout

/-- With the whole of one session mirrored in another, steps have the same answers in both, as long
as none asks for what is remembered. -/
theorem Mirrors.run {f : Nat → Nat} {t : Session} (h : s.Mirrors False [] f t) {steps : List Step}
    (hsteps : ∀ id, .use id .current ∉ steps) :
    (s.run steps).map Prod.fst = (t.run steps).map Prod.fst := by
  induction steps generalizing f s t with
  | nil => rfl
  | cons step steps ih =>
      have hcurrent : ∀ id, step = .use id .current → False := by
        rintro id rfl
        exact hsteps id List.mem_cons_self
      obtain ⟨hanswer, g, hnext⟩ := h.step (fun _ _ => List.not_mem_nil) hcurrent
      simp only [run_cons, List.map_cons, hanswer, List.cons.injEq, true_and]
      exact ih hnext fun id hid => hsteps id (List.mem_cons_of_mem _ hid)

/-- Evaluations carry nothing over. In whatever session, the answer is made of the expression, the
order of powers and the tables as they are at the time, so it is that of any evaluator with the same,
and of a new one. No table is changed and no other object, and later answers are as if there had been
no evaluation. The tokens that the evaluator holds are those of its expression, with the cursor at
the ending if there was a value; where the expression cannot be scanned it holds what it held. -/
theorem evaluate_stateless (limits : Limits) (history : List Step) {s next : Session}
    (hs : s = ofSteps limits history) {id : String} {index : Nat} {e : Evaluator}
    (hid : s.objects.get? id = some (.evaluator index e)) {answer : Answer}
    (hnext : s.step (.use id .evaluate) = (next, answer)) :
    answer = .ofResult (evaluate limits (s.scopeAt index) e.order e.expression).result ∧
    (∀ (history' : List Step) (id' : String) (index' : Nat) (e' : Evaluator),
      (ofSteps limits history').objects.get? id' = some (.evaluator index' e') →
      e'.expression = e.expression → e'.order = e.order →
      ((ofSteps limits history').scopeAt index').SameTables (s.scopeAt index) →
        ((ofSteps limits history').step (.use id' .evaluate)).2 = answer) ∧
    (∀ fresh, ((s.step (.newEvaluator fresh e.expression e.order (some id))).1.step
      (.use fresh .evaluate)).2 = answer) ∧
    (next.scopes = s.scopes ∧ next.tables = s.tables ∧
      (∀ other, other ≠ id → next.objects.get? other = s.objects.get? other) ∧
      ∃ e', next.objects.get? id = some (.evaluator index e') ∧
        e'.expression = e.expression ∧ e'.order = e.order ∧
        (∀ fault, Token.scan (s.scopeAt index) limits.length e.expression = .error fault →
          e'.tokens = e.tokens ∧ e'.cursor = e.cursor) ∧
        ∀ tokens, Token.scan (s.scopeAt index) limits.length e.expression = .ok tokens →
          e'.tokens = tokens ∧ ∀ x, answer = .number x →
            ∃ body, tokens = body ++ [.ending] ∧ e'.cursor = body.length) ∧
    ∀ later, (∀ other, .use other .current ∉ later) →
      (next.run later).map Prod.fst = (s.run later).map Prod.fst := by
  have hlimits : s.limits = limits := hs ▸ limits_ofSteps limits history
  have hsame := mirrors_evaluate (hs ▸ wellFormed_ofSteps limits history) hid
  have hanswer := step_evaluate hid
  rw [hnext] at hsame hanswer
  obtain ⟨rfl, rfl⟩ := Prod.mk.inj hanswer
  rw [hlimits] at hsame ⊢
  refine ⟨rfl, ?_, ?_, ⟨rfl, rfl, ?_, ?_⟩, fun later hlater => hsame.run hlater⟩
  · intro history' id' index' e' hid' hexpression horder htables
    rw [step_evaluate hid', limits_ofSteps, hexpression, horder,
      evaluate_congr fun name _ => htables.sameAt name]
  · intro fresh
    have hfresh : s.step (.newEvaluator fresh e.expression e.order (some id)) =
        (s.setObject fresh (.evaluator index { expression := e.expression, order := e.order }),
          .done) := by
      simp only [step, hid, Object.index]
    rw [hfresh, step_evaluate (get?_setObject_self ..), limits_setObject, hlimits]
    rfl
  · intro other hother
    rw [get?_setObject, if_neg hother]
  · obtain ⟨hexpression, horder⟩ := e.evaluate_keeps limits (s.scopeAt index)
    refine ⟨_, get?_setObject_self .., hexpression, horder, ?_, ?_⟩
    · intro fault hfault
      rw [Evaluator.evaluate_of_scan_error hfault]
      exact ⟨rfl, rfl⟩
    · intro tokens htokens
      obtain ⟨hheld, hcursor⟩ := Evaluator.evaluate_of_scan_ok htokens
      refine ⟨hheld, fun x hx => hcursor x ?_⟩
      rw [e.evaluate_result]
      exact Answer.eq_ok_of_ofResult hx

/-- The parse that was given up before leaves nothing behind. -/
theorem evaluate_stateless_after_failure :
    ∃ s, s = ofSteps ⟨100, 1000⟩ [.newEvaluator "e" "1 + (2" .fromLeft none, .use "e" .evaluate,
        .use "e" (.setExpression "3")] ∧
      s.objects.get? "e" =
        some (.evaluator 0 ⟨"3", .fromLeft, [.number 1, .op "+", .op "(", .number 2, .ending], 4⟩) ∧
      ∃ next, s.step (.use "e" .evaluate) = (next, .number 3) ∧
        Answer.number 3 =
          .ofResult (Reckoner.evaluate ⟨100, 1000⟩ (s.scopeAt 0) .fromLeft "3").result := by
  let history : List Step := [.newEvaluator "e" "1 + (2" .fromLeft none, .use "e" .evaluate,
    .use "e" (.setExpression "3")]
  have hid : (ofSteps ⟨100, 1000⟩ history).objects.get? "e" =
      some (.evaluator 0
        ⟨"3", .fromLeft, [.number 1, .op "+", .op "(", .number 2, .ending], 4⟩) := by
    with_unfolding_all rfl
  have hnext : (ofSteps ⟨100, 1000⟩ history).step (.use "e" .evaluate) =
      (((ofSteps ⟨100, 1000⟩ history).step (.use "e" .evaluate)).1, .number 3) := by
    with_unfolding_all rfl
  exact ⟨_, rfl, hid, _, hnext, (evaluate_stateless ⟨100, 1000⟩ history rfl hid hnext).1⟩

end Session
end Reckoner
