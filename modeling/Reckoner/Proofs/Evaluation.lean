import Reckoner.Proofs.Descent.Calls
import Reckoner.Proofs.Descent.Whole
import Reckoner.Proofs.Merge
import Reckoner.Proofs.Token.Scan
import Reckoner.Report

/-!
How evaluations fail. With doubles for variables an evaluation has a value, a fault that is
reported, or too deep a nesting, but for one gap: at an infinite angle the reciprocal of a circular
function lets the failure of that function through. All other failures of computations are handled
where they come up, or kept off by a guard.
-/

namespace Reckoner

variable {scope : Scope} {order : PowerOrder}

/-- A lexeme has a token only if its name is known. -/
theorem Lexeme.resolves_of_token? {l : Lexeme} {t : Token} (h : l.token? scope = some t) :
    scope.Resolves t := by
  cases l with
  | number | operator | comma =>
      obtain rfl := Option.some.inj h
      trivial
  | name run =>
      rcases named?_cases h with ⟨rfl, hknown⟩ | ⟨rfl, hknown⟩ | ⟨rfl, hknown⟩ <;> exact hknown

/-- What is scanned ends in its only ending, and its names are known. -/
theorem Token.resolves_of_scan {limit : Int} {text : String} {tokens : List Token}
    (h : Token.scan scope limit text = .ok tokens) :
    ∃ body, tokens = body ++ [.ending] ∧ .ending ∉ body ∧ ∀ t ∈ body, scope.Resolves t := by
  have hspelt := (Token.scan_eq_ok_iff.1 h).2
  obtain ⟨body, hbody, hending, -⟩ := hspelt.proper
  refine ⟨body, hbody, hending, ?_⟩
  obtain ⟨ls, ts, -, htokens, rfl⟩ := hspelt
  obtain rfl : ts = body := List.append_cancel_right hbody
  clear * - htokens
  induction htokens with
  | nil => simp
  | cons htoken _ ih => exact List.forall_mem_cons.2 ⟨Lexeme.resolves_of_token? htoken, ih⟩

/-- What is consumed and what is left are the tokens that were given. -/
theorem Reader.take_cursor_append_rest (r : Reader Float) (ts : List Token) :
    ts.take (r.start ts).cursor ++ (r.run ts).rest = ts := by
  obtain ⟨u, hu⟩ := r.suffix ts
  have hcursor : (r.start ts).cursor = ts.length - (r.run ts).rest.length := rfl
  rw [hcursor]
  generalize (r.run ts).rest = rest at hu ⊢
  subst hu
  simp

section Elementary

variable [Elementary]

/-- The causes for which a whole expression with names that are known may halt. -/
theorem wholeExpression_halt_cases {body : List Token} (hresolves : ∀ t ∈ body, scope.Resolves t)
    {frames : Nat} {h : Halt}
    (hresult : ((wholeExpression scope order frames).start (body ++ [.ending])).result = .error h) :
    h = .tooDeep ∨ (∃ failure, h = .raised failure) ∨ ∃ fault, h = .fault fault := by
  obtain ⟨u, v, rfl, -, hblame⟩ := wholeExpression_exists_blame hresult
  generalize hrest : v ++ [.ending] = rest at hblame
  cases hblame with
  | tooDeep => exact .inl rfl
  | pastEnd => simp at hrest
  | grammar => exact .inr (.inr ⟨_, rfl⟩)
  | cause c =>
      have hknown : ∀ t ∈ u ++ rest, scope.Resolves t := by
        rw [← hrest, ← List.append_assoc]
        exact resolves_append_ending hresolves
      obtain ⟨front, name, args, xs, rfl, -, hcall⟩ := c.exists_call hknown
      rcases Builtin.callNamed_eq_error hcall with ⟨-, hname⟩ | hraised | ⟨fault, rfl, -⟩
      · have hfunction := hknown (.func name) (by simp)
        simp [Scope.Resolves, hname] at hfunction
      · exact .inr (.inl hraised)
      · exact .inr (.inr ⟨fault, rfl⟩)

/-- The tokens end in a call of the reciprocal of a circular function, with an infinity for its
first argument. -/
def EndsAtInfiniteAngle (scope : Scope) (order : PowerOrder) (ts : List Token) : Prop :=
  ∃ (front : List Token) (g : Restricted)
    (args : Phrase order (.whole (.call (Builtin.restricted g).name))) (x : Float)
    (rest : List Float),
    ts = front ++ .func (Builtin.restricted g).name :: args.tokens ∧ g.isReciprocal ∧
      args.values scope = .ok (x :: rest) ∧ x.isInf

/-- A reader that ends right behind a call has failed as the call does, if not for want of
frames. -/
theorem wholeExpression_result_of_call {frames : Nat} {ts front : List Token} {name : String}
    {args : Phrase order (.whole (.call name))} {h : Halt} (herror : args.outcome scope = .error h)
    (htake : ts.take ((wholeExpression scope order frames).start ts).cursor =
      front ++ .func name :: args.tokens) :
    ((wholeExpression scope order frames).start ts).result = .error .tooDeep ∨
      ((wholeExpression scope order frames).start ts).result = .error h := by
  have hts := (wholeExpression scope order frames).take_cursor_append_rest ts
  -- the name has been consumed, so the call behind it has been read with some number of frames
  rw [htake, List.append_assoc, List.cons_append] at hts
  obtain ⟨inner, hheeds⟩ :=
    (heedsAt_closed scope order).wholeExpression frames ts hts.symm (by simp)
  -- with as many frames as they take, the arguments fail as their phrase does
  have hfollowed : args.Followed scope := args.followed
  have hcall := hfollowed (max inner args.frames) ((wholeExpression scope order frames).run ts).rest
    (Nat.le_max_right _ _) (.empty _)
  rw [herror] at hcall
  rcases Level.read_within (Nat.le_max_left inner args.frames) (.call name)
    (args.tokens ++ ((wholeExpression scope order frames).run ts).rest) with hdeep | heq
  · exact .inl (hheeds _ hdeep)
  · right
    apply hheeds
    rw [heq]
    exact hcall

/-- A computation fails in a whole expression exactly where it has read a call that is to blame: one
at an infinite angle. -/
theorem wholeExpression_raised_iff (hlaws : Elementary.Documented) {ts body : List Token}
    (hts : ts = body ++ [.ending]) (hresolves : ∀ t ∈ body, scope.Resolves t) {frames : Nat}
    {failure : MathFault} :
    ((wholeExpression scope order frames).start ts).result = .error (.raised failure) ↔
      failure = .outside ∧
        ((wholeExpression scope order frames).start ts).result ≠ .error .tooDeep ∧
          EndsAtInfiniteAngle scope order
            (ts.take ((wholeExpression scope order frames).start ts).cursor) := by
  subst hts
  constructor
  · intro hresult
    have hframes : ((wholeExpression scope order frames).start (body ++ [.ending])).result ≠
        .error .tooDeep := by simp [hresult]
    obtain ⟨u, v, rfl, hcursor, hblame⟩ := wholeExpression_exists_blame hresult
    have hknown := resolves_append_ending hresolves
    rw [hcursor]
    rw [List.append_assoc] at hknown hframes ⊢
    rw [List.take_left]
    cases hblame with
    | cause c =>
        obtain ⟨front, name, args, xs, rfl, hvalues, hcall⟩ := c.exists_call hknown
        obtain ⟨rfl, g, x, rest, rfl, hg, rfl, hx⟩ :=
          (Builtin.callNamed_eq_raised_iff hlaws).1 hcall
        exact ⟨rfl, hframes, front, g, args, x, rest, rfl, hg, hvalues, hx⟩
  · rintro ⟨rfl, hframes, front, g, args, x, xs, htake, hg, hvalues, hx⟩
    have herror : args.outcome scope = .error (.raised .outside) := by
      rw [args.outcome_call, hvalues]
      exact (Builtin.callNamed_eq_raised_iff hlaws).2 ⟨rfl, g, x, xs, rfl, hg, rfl, hx⟩
    exact (wholeExpression_result_of_call herror htake).resolve_left hframes

/-- The evaluation has stopped right behind a call that asks for the reciprocal of a circular
function at an infinite angle. -/
def Evaluation.AtInfiniteAngle (e : Evaluation) (scope : Scope) (order : PowerOrder) : Prop :=
  ∃ tokens, e.tokens? = some tokens ∧ EndsAtInfiniteAngle scope order (tokens.take e.cursor)

theorem evaluate_cases (limits : Limits) (scope : Scope) (order : PowerOrder) (text : String) :
    (∃ x, (evaluate limits scope order text).result = .ok x) ∨
      (∃ fault, (evaluate limits scope order text).result = .error (.fault fault)) ∨
        (evaluate limits scope order text).result = .error .tooDeep ∨
          ∃ failure, (evaluate limits scope order text).result = .error (.raised failure) := by
  unfold evaluate
  cases hscan : Token.scan scope limits.length text with
  | error fault => exact .inr (.inl ⟨fault, rfl⟩)
  | ok tokens =>
      obtain ⟨body, rfl, -, hresolves⟩ := Token.resolves_of_scan hscan
      show (∃ x, ((wholeExpression scope order limits.frames).start (body ++ [.ending])).result =
        .ok x) ∨ _
      cases hresult :
          ((wholeExpression scope order limits.frames).start (body ++ [.ending])).result with
      | ok x => exact .inl ⟨x, rfl⟩
      | error h =>
        right
        rcases wholeExpression_halt_cases hresolves hresult with rfl | ⟨failure, rfl⟩ | ⟨fault, rfl⟩
        · exact .inr (.inl hresult)
        · exact .inr (.inr ⟨failure, hresult⟩)
        · exact .inl ⟨fault, hresult⟩

theorem evaluate_eq_raised_iff (hlaws : Elementary.Documented) (limits : Limits) (scope : Scope)
    (order : PowerOrder) (text : String) (failure : MathFault) :
    (evaluate limits scope order text).result = .error (.raised failure) ↔
      failure = .outside ∧ (evaluate limits scope order text).result ≠ .error .tooDeep ∧
        (evaluate limits scope order text).AtInfiniteAngle scope order := by
  unfold evaluate Evaluation.AtInfiniteAngle
  cases hscan : Token.scan scope limits.length text with
  | error fault => simp
  | ok tokens =>
      obtain ⟨body, hbody, -, hresolves⟩ := Token.resolves_of_scan hscan
      simpa using wholeExpression_raised_iff hlaws hbody hresolves

end Elementary

/-! ### Doubles for variables -/

/-- Doubles are bound without a fault. -/
theorem Scope.bindAll_real (s : Scope) {entries : List (String × Value)}
    (h : ∀ entry ∈ entries, ∃ x, entry.2 = .real x) : (s.bindAll entries).2 = none := by
  rw [bindAll_eq, Value.firstFault?_eq_none_iff]
  intro entry hentry
  obtain ⟨x, hx⟩ := h entry hentry
  rw [hx]
  rfl

/-- With more frames an evaluation comes to the same, unless it was found too deep. -/
theorem evaluate_of_frames [Elementary] {length : Int} {frames more : Nat} (h : frames ≤ more)
    {text : String} (hdeep : (evaluate ⟨length, frames⟩ scope order text).result ≠ .error .tooDeep) :
    evaluate ⟨length, more⟩ scope order text = evaluate ⟨length, frames⟩ scope order text := by
  unfold evaluate at hdeep ⊢
  cases hscan : Token.scan scope length text with
  | error fault => rfl
  | ok tokens =>
      simp only [hscan] at hdeep ⊢
      rcases wholeExpression_within scope order h tokens with htooDeep | hsame
      · exact absurd htooDeep hdeep
      · rw [Reader.start, Reader.start, hsame]

theorem evaluateWith_of_frames [Elementary] {length : Int} {frames more : Nat} (h : frames ≤ more)
    {values : Table Value} {text : String}
    (hdeep : evaluateWith ⟨length, frames⟩ values order text ≠ .error (.halt .tooDeep)) :
    evaluateWith ⟨length, more⟩ values order text =
      evaluateWith ⟨length, frames⟩ values order text := by
  unfold evaluateWith at hdeep ⊢
  cases hadd : Scope.builtin.add values with
  | mk scope fault? =>
    rw [hadd] at hdeep
    cases fault? with
    | some fault => rfl
    | none =>
        have hresult : (evaluate ⟨length, frames⟩ scope order text).result ≠ .error .tooDeep :=
          fun hresult => hdeep (congrArg (Except.mapError Failure.halt) hresult)
        exact congrArg (fun e => e.result.mapError Failure.halt) (evaluate_of_frames h hresult)

theorem evaluateWith_eq [Elementary] {values : Table Value}
    (hvalues : ∀ entry ∈ values.entries, ∃ x, entry.2 = .real x) (limits : Limits)
    (order : PowerOrder) (text : String) :
    evaluateWith limits values order text =
      (evaluate limits (Scope.builtin.add values).1 order text).result.mapError .halt := by
  unfold evaluateWith
  have hnone : (Scope.builtin.add values).2 = none := Scope.bindAll_real _ hvalues
  split
  · simp_all
  · simp_all

/-- With doubles for variables an evaluation has a value, or a fault, or it is nested too deeply,
and all of these are reported. Of all the ways in which a computation can fail one gets out: that a
circular function has no value, where the reciprocal of one is called with an infinity, and right
behind the call. -/
theorem evaluateWith_total_but_infiniteAngle [Elementary] (hlaws : Elementary.Documented)
    {values : Table Value} (hvalues : ∀ entry ∈ values.entries, ∃ x, entry.2 = .real x)
    (limits : Limits) (order : PowerOrder) (text : String) :
    ((∃ x, evaluateWith limits values order text = .ok x) ∨
      (∃ fault, evaluateWith limits values order text = .error (.halt (.fault fault))) ∨
        evaluateWith limits values order text = .error (.halt .tooDeep) ∨
          evaluateWith limits values order text = .error (.halt (.raised .outside))) ∧
    (evaluateWith limits values order text = .error (.halt (.raised .outside)) ↔
      (evaluate limits (Scope.builtin.add values).1 order text).result ≠ .error .tooDeep ∧
        (evaluate limits (Scope.builtin.add values).1 order text).AtInfiniteAngle
          (Scope.builtin.add values).1 order) ∧
    ((∃ report, reportWith limits values order text = .ok report) ↔
      evaluateWith limits values order text ≠ .error (.halt (.raised .outside))) := by
  have hcases := evaluate_cases limits (Scope.builtin.add values).1 order text
  have hraised := evaluate_eq_raised_iff hlaws limits (Scope.builtin.add values).1 order text
  unfold reportWith
  rw [evaluateWith_eq hvalues]
  generalize (evaluate limits (Scope.builtin.add values).1 order text).result = result at *
  rcases hcases with ⟨x, rfl⟩ | ⟨fault, rfl⟩ | rfl | ⟨failure, rfl⟩
  · refine ⟨.inl ⟨x, rfl⟩, ?_, fun _ => nofun, fun _ => ⟨_, rfl⟩⟩
    simpa [Except.mapError] using hraised .outside
  · refine ⟨.inr (.inl ⟨fault, rfl⟩), ?_, fun _ => nofun, fun _ => ⟨_, rfl⟩⟩
    simpa [Except.mapError] using hraised .outside
  · refine ⟨.inr (.inr (.inl rfl)), ?_, fun _ => nofun, fun _ => ⟨_, rfl⟩⟩
    simp [Except.mapError]
  · obtain ⟨rfl, hangle⟩ := (hraised failure).1 rfl
    refine ⟨.inr (.inr (.inr rfl)), iff_of_true rfl hangle, ?_, fun h => absurd rfl h⟩
    rintro ⟨report, hreport⟩
    cases hreport

/-- With an infinity for the variable the secant is called, and its cosine has no value. -/
theorem evaluateWith_sec_infinity :
    letI := Elementary.coarse
    (Elementary.Documented ∧
      ∀ entry ∈ (Table.ofList [("x", Value.real Binary64.infinity)]).entries,
        ∃ x, entry.2 = .real x) ∧
    evaluateWith ⟨10000, 1000⟩ (Table.ofList [("x", .real Binary64.infinity)]) .fromLeft "sec(x)" =
      .error (.halt (.raised .outside)) ∧
    ¬∃ report, reportWith ⟨10000, 1000⟩ (Table.ofList [("x", .real Binary64.infinity)]) .fromLeft
      "sec(x)" = .ok report := by
  let _ := Elementary.coarse
  have hvalues : ∀ entry ∈ (Table.ofList [("x", Value.real Binary64.infinity)]).entries,
      ∃ x, entry.2 = .real x := by
    intro entry hentry
    obtain rfl := List.mem_singleton.1 hentry
    exact ⟨_, rfl⟩
  have hraised : evaluateWith ⟨10000, 1000⟩ (Table.ofList [("x", .real Binary64.infinity)])
      .fromLeft "sec(x)" = .error (.halt (.raised .outside)) := by
    with_unfolding_all rfl
  refine ⟨⟨Elementary.coarse_documented, hvalues⟩, hraised, ?_⟩
  rw [(evaluateWith_total_but_infiniteAngle Elementary.coarse_documented hvalues ⟨10000, 1000⟩
    .fromLeft "sec(x)").2.2]
  exact fun h => h hraised

/-- Neither a value nor a fault nor too deep a nesting. -/
theorem evaluateWith_cosec_infinity :
    evaluateWith ⟨10000, 1000⟩ ∅ .fromLeft "cosec(1/0)" = .error (.halt (.raised .outside)) ∧
      ¬∃ report, reportWith ⟨10000, 1000⟩ ∅ .fromLeft "cosec(1/0)" = .ok report := by
  refine ⟨by with_unfolding_all rfl, ?_⟩
  rintro ⟨report, hreport⟩
  have hfailure : reportWith ⟨10000, 1000⟩ ∅ .fromLeft "cosec(1/0)" =
      .error (.halt (.raised .outside)) := by
    with_unfolding_all rfl
  rw [hfailure] at hreport
  cases hreport

end Reckoner
