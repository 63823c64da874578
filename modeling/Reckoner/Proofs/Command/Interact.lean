import Reckoner.Proofs.Command.Lines
import Reckoner.Proofs.Relevance

/-!
Interactive runs. A run is the course of its lines: what is written for each of them, and the
variables, which carry all that one line leaves to the next. So a line that leaves the variables as
they were can be taken out, and an assignment has its effect through the value of its name alone.
-/

namespace Reckoner.Command

/-- What an interactive run comes to: what is written for each line that is read, the variables in the
end, and how it ends if not with its input. -/
structure Course where
  replies : List (List Output)
  vars : Table Float
  ending : Option Ending

namespace Course

/-- The course with replies before it. -/
def behind (replies : List (List Output)) (c : Course) : Course :=
  { c with replies := replies ++ c.replies }

/-- The course without one reply. -/
def without (c : Course) (index : Nat) : Course :=
  { c with replies := c.replies.eraseIdx index }

/-- The course as it is written: a prompt before each reply, and one more where the input ends. -/
def transcript (c : Course) (ending : Manner.InputEnd) : Transcript :=
  (match c.ending with
    | none => Manner.close ending
    | some ended => ⟨[], ended⟩).after (c.replies.flatMap fun reply => .out Manner.prompt :: reply)

theorem transcript_behind (replies : List (List Output)) (c : Course) (ending : Manner.InputEnd) :
    (c.behind replies).transcript ending =
      (c.transcript ending).after (replies.flatMap fun reply => .out Manner.prompt :: reply) := by
  simp only [transcript, behind, Transcript.after, List.flatMap_append, List.append_assoc]

end Course

/-- How the run ends at a line, if it does. -/
def Next.ending : Next → Option Ending
  | .go _ => none
  | .leave => some (.returned 0)
  | .escape cause => some (.escaped cause)

namespace Manner

variable (m : Manner) (vars : Table Float)

def course (vars : Table Float) : List String → Course
  | [] => ⟨[], vars, none⟩
  | line :: lines =>
    let (outputs, next) := m.step vars line
    match next with
    | .go vars => (course vars lines).behind [outputs]
    | .leave => ⟨[outputs], vars, some (.returned 0)⟩
    | .escape cause => ⟨[outputs], vars, some (.escaped cause)⟩

theorem interact_eq_course (ending : InputEnd) (lines : List String) :
    m.interact ending vars lines = (m.course vars lines).transcript ending := by
  induction lines generalizing vars with
  | nil => cases ending <;> rfl
  | cons line lines ih =>
      unfold interact course
      cases m.step vars line with
      | mk outputs next =>
        cases next with
        | go vars =>
            simp only [ih, Course.transcript_behind, List.flatMap_singleton]
        | leave => simp [Course.transcript, Transcript.after]
        | escape cause => simp [Course.transcript, Transcript.after]

variable {m vars} {vars' : Table Float} {line : String}

/-! ### Steps -/

theorem kept_snd (m : Manner) (vars vars' : Table Float) (target : Option String)
    (result : Except Halt Float) : (m.kept vars target result).2 = (m.kept vars' target result).2 := by
  cases target with
  | none => rfl
  | some name => cases result <;> rfl

/-- A line that gives no name a value leaves the variables. -/
theorem follow_of_target (h : target line = none) : m.follow vars line = vars := by
  unfold follow
  rw [h]
  rfl

theorem follow_of_error {h : Halt} (herror : (m.evaluation vars line).result = .error h) :
    m.follow vars line = vars := by
  unfold follow
  rw [herror]
  cases target line <;> rfl

theorem follow_of_ok {name : String} (htarget : target line = some name) {x : Float}
    (hx : (m.evaluation vars line).result = .ok x) :
    m.follow vars line = vars.insert name x := by
  unfold follow
  rw [htarget, hx]
  rfl

theorem target_of_isBlank (h : isBlank line) : target line = none := by
  cases htarget : target line with
  | none => rfl
  | some name => simp [(not_idle_of_target htarget).1] at h

/-- A line that is evaluated alike under two tables is answered alike, and the run goes on or ends
alike. -/
theorem step_congr (hm : m.Precise) (h : m.evaluation vars line = m.evaluation vars' line) :
    ∃ outputs, (m.step vars line = (outputs, .go (m.follow vars line)) ∧
        m.step vars' line = (outputs, .go (m.follow vars' line))) ∨
      ∃ next, (∀ v, next ≠ .go v) ∧ m.step vars line = (outputs, next) ∧
        m.step vars' line = (outputs, next) := by
  cases hblank : isBlank line with
  | true =>
      have htarget := target_of_isBlank hblank
      refine ⟨[], .inl ?_⟩
      rw [follow_of_target htarget, follow_of_target htarget]
      exact ⟨step_of_isBlank hblank, step_of_isBlank hblank⟩
  | false =>
      cases hexit : isExit line with
      | true =>
          exact ⟨[], .inr ⟨.leave, nofun, step_of_isExit hblank hexit, step_of_isExit hblank hexit⟩⟩
      | false =>
          have hnotes : m.notes vars line = m.notes vars' line := by
            unfold notes
            rw [h, m.kept_snd vars vars']
          cases hreport : Report.ofResult (m.evaluation vars line).result with
          | error cause =>
              refine ⟨_, .inr ⟨.escape (.halt cause), nofun, step_of_halt hblank hexit hreport, ?_⟩⟩
              rw [h] at hreport ⊢
              exact step_of_halt hblank hexit hreport
          | ok r =>
              obtain ⟨text, htext⟩ := hm.render r
              refine ⟨_, .inl ⟨step_of_report hblank hexit hreport htext, ?_⟩⟩
              rw [h] at hreport
              rw [hnotes]
              exact step_of_report hblank hexit hreport htext

/-- A line that does not leave, and does not break the run off, is answered and followed. -/
theorem exists_step_eq_go (hm : m.Precise) (hexit : isExit line = false)
    (h : ∀ failure, (m.evaluation vars line).result ≠ .error (.raised failure)) :
    ∃ outputs, m.step vars line = (outputs, .go (m.follow vars line)) := by
  cases hblank : isBlank line with
  | true =>
      rw [follow_of_target (target_of_isBlank hblank)]
      exact ⟨[], step_of_isBlank hblank⟩
  | false =>
      obtain ⟨r, hreport⟩ := exists_report h
      obtain ⟨text, htext⟩ := hm.render r
      exact ⟨_, step_of_report hblank hexit hreport htext⟩

/-! ### Courses -/

theorem course_cons_go {outputs : List Output} (h : m.step vars line = (outputs, .go vars'))
    (lines : List String) :
    m.course vars (line :: lines) = (m.course vars' lines).behind [outputs] := by
  simp only [course, h]

/-- Behind a line that ends the run no other is read. -/
theorem course_cons_stop {outputs : List Output} {next : Next}
    (h : m.step vars line = (outputs, next)) (hstop : ∀ v, next ≠ .go v) (lines : List String) :
    m.course vars (line :: lines) = ⟨[outputs], vars, next.ending⟩ := by
  cases next with
  | go v => exact absurd rfl (hstop v)
  | leave => simp only [course, h, Next.ending]
  | escape cause => simp only [course, h, Next.ending]

/-- The course of lines is that of the first of them, and of the others from where it ends. -/
theorem course_append (front back : List String) :
    ((m.course vars front).ending = none ∧ (m.course vars front).replies.length = front.length ∧
      m.course vars (front ++ back) =
        (m.course (m.course vars front).vars back).behind (m.course vars front).replies) ∨
    ((m.course vars front).ending ≠ none ∧ (m.course vars front).replies.length ≤ front.length ∧
      m.course vars (front ++ back) = m.course vars front) := by
  induction front generalizing vars with
  | nil => exact .inl ⟨rfl, rfl, rfl⟩
  | cons line front ih =>
      cases hstep : m.step vars line with
      | mk outputs next =>
        by_cases hgo : ∃ v, next = .go v
        · obtain ⟨v, rfl⟩ := hgo
          rw [List.cons_append, course_cons_go hstep, course_cons_go hstep]
          rcases @ih v with ⟨hending, hlength, happend⟩ | ⟨hending, hlength, happend⟩
          · refine .inl ⟨hending, ?_, ?_⟩
            · simp only [Course.behind, List.length_append, List.length_cons, List.length_nil]
              omega
            · rw [happend]
              rfl
          · refine .inr ⟨hending, ?_, ?_⟩
            · simp only [Course.behind, List.length_append, List.length_cons, List.length_nil]
              omega
            · rw [happend]
        · have hstop : ∀ v, next ≠ .go v := fun v hv => hgo ⟨v, hv⟩
          rw [List.cons_append, course_cons_stop hstep hstop, course_cons_stop hstep hstop]
          refine .inr ⟨?_, Nat.succ_le_succ (Nat.zero_le _), rfl⟩
          cases next with
          | go v => exact absurd rfl (hstop v)
          | leave | escape => exact nofun

theorem Course.without_behind (replies : List (List Output)) (reply : List Output) (c : Course) :
    ((c.behind [reply]).behind replies).without replies.length = c.behind replies := by
  simp only [Course.without, Course.behind]
  rw [List.eraseIdx_append_of_length_le (Nat.le_refl _)]
  simp

/-- A relation between tables that every line respects goes through whole runs. -/
theorem course_congr (hm : m.Precise) {R : Table Float → Table Float → Prop}
    (hinsert : ∀ v v' name x, R v v' → R (v.insert name x) (v'.insert name x))
    (hevaluation : ∀ v v' line, R v v' → m.evaluation v line = m.evaluation v' line)
    (h : R vars vars') (lines : List String) :
    (m.course vars lines).replies = (m.course vars' lines).replies ∧
      (m.course vars lines).ending = (m.course vars' lines).ending ∧
      R (m.course vars lines).vars (m.course vars' lines).vars := by
  induction lines generalizing vars vars' with
  | nil => exact ⟨rfl, rfl, h⟩
  | cons line lines ih =>
      have heq := hevaluation vars vars' line h
      have hfollow : R (m.follow vars line) (m.follow vars' line) := by
        unfold follow kept
        rw [← heq]
        split
        · exact hinsert _ _ _ _ h
        · exact h
      obtain ⟨outputs, ⟨hstep, hstep'⟩ | ⟨next, hstop, hstep, hstep'⟩⟩ := step_congr hm heq
      · rw [course_cons_go hstep, course_cons_go hstep']
        obtain ⟨hreplies, hending, hvars⟩ := ih hfollow
        exact ⟨congrArg ([outputs] ++ ·) hreplies, hending, hvars⟩
      · rw [course_cons_stop hstep hstop, course_cons_stop hstep' hstop]
        exact ⟨rfl, rfl, h⟩

/-! ### Lines taken out -/

/-- What goes on behind the lines at the front, if they do not end the run. -/
theorem course_append_of_going {front : List String} (h : (m.course vars front).ending = none)
    (back : List String) :
    (m.course vars front).replies.length = front.length ∧
      m.course vars (front ++ back) =
        (m.course (m.course vars front).vars back).behind (m.course vars front).replies := by
  rcases course_append (m := m) front back with ⟨-, hlength, happend⟩ | ⟨hended, -, -⟩
  · exact ⟨hlength, happend⟩
  · exact absurd h hended

theorem course_append_of_ended {front : List String} (h : (m.course vars front).ending ≠ none)
    (back : List String) :
    (m.course vars front).replies.length ≤ front.length ∧
      m.course vars (front ++ back) = m.course vars front := by
  rcases course_append (m := m) front back with ⟨hgoing, -, -⟩ | ⟨-, hlength, happend⟩
  · exact absurd hgoing h
  · exact ⟨hlength, happend⟩

/-- A line that leaves the variables as they were has no effect on other lines. -/
theorem course_without (hm : m.Precise) {front : List String} (hexit : isExit line = false)
    (hkeeps : target line = none ∨
      ∃ h, (m.evaluation (m.course vars front).vars line).result = .error h)
    (hgap : ∀ failure,
      (m.evaluation (m.course vars front).vars line).result ≠ .error (.raised failure))
    (back : List String) :
    (m.course vars (front ++ line :: back)).without front.length =
      m.course vars (front ++ back) := by
  have hfollow : m.follow (m.course vars front).vars line = (m.course vars front).vars := by
    rcases hkeeps with htarget | ⟨h, herror⟩
    · exact follow_of_target htarget
    · exact follow_of_error herror
  by_cases hending : (m.course vars front).ending = none
  · obtain ⟨outputs, hstep⟩ := exists_step_eq_go hm hexit hgap
    rw [hfollow] at hstep
    obtain ⟨hlength, hline⟩ := course_append_of_going hending (line :: back)
    rw [hline, (course_append_of_going hending back).2, course_cons_go hstep, ← hlength]
    exact Course.without_behind ..
  · obtain ⟨hlength, hline⟩ := course_append_of_ended hending (line :: back)
    rw [hline, (course_append_of_ended hending back).2, Course.without,
      List.eraseIdx_of_length_le hlength]

/-- Variables named as something that is built in have no effect on an evaluation. -/
theorem evaluation_congr {name : String}
    (hname : (Builtin.ofName? name).isSome ∨ (Scope.builtin.constants.get? name).isSome)
    (h : ∀ other, other ≠ name → vars.get? other = vars'.get? other) (line : String) :
    m.evaluation vars line = m.evaluation vars' line := by
  have hsame : ∀ other, { Scope.builtin with vars }.SameAt { Scope.builtin with vars := vars' }
      other := by
    intro other
    apply Scope.sameAt_of_vars
    · rfl
    · intro hfunction hconstant
      apply h
      rintro rfl
      rcases hname with hsome | hsome
      · simp [hfunction] at hsome
      · have hnone : Scope.builtin.constants.get? other = none := hconstant
        simp [hnone] at hsome
  exact evaluate_congr (fun other _ => hsame other) _ _

/-- A value given to a name that is built in has no effect on other lines. -/
theorem course_without_builtin (hm : m.Precise) {front : List String} {name : String}
    (htarget : target line = some name)
    (hname : (Builtin.ofName? name).isSome ∨ (Scope.builtin.constants.get? name).isSome) {x : Float}
    (hx : (m.evaluation (m.course vars front).vars line).result = .ok x) (back : List String) :
    ((m.course vars (front ++ line :: back)).without front.length).replies =
        (m.course vars (front ++ back)).replies ∧
      (m.course vars (front ++ line :: back)).ending = (m.course vars (front ++ back)).ending ∧
      ∀ other, other ≠ name → (m.course vars (front ++ line :: back)).vars.get? other =
        (m.course vars (front ++ back)).vars.get? other := by
  by_cases hending : (m.course vars front).ending = none
  · have hgap : ∀ failure,
        (m.evaluation (m.course vars front).vars line).result ≠ .error (.raised failure) := by
      simp [hx]
    obtain ⟨outputs, hstep⟩ := exists_step_eq_go hm (not_idle_of_target htarget).2 hgap
    rw [follow_of_ok htarget hx] at hstep
    obtain ⟨hlength, hline⟩ := course_append_of_going hending (line :: back)
    rw [hline, (course_append_of_going hending back).2, course_cons_go hstep, ← hlength,
      Course.without_behind]
    have hinserted : ∀ other, other ≠ name →
        ((m.course vars front).vars.insert name x).get? other =
          (m.course vars front).vars.get? other := by
      intro other hother
      rw [Table.get?_insert, if_neg hother]
    obtain ⟨hreplies, hend, hvars⟩ := course_congr hm
      (R := fun v v' => ∀ other, other ≠ name → v.get? other = v'.get? other)
      (fun v v' n y h other hother => by simp only [Table.get?_insert, h other hother])
      (fun v v' line h => evaluation_congr hname h line) hinserted back
    exact ⟨congrArg (_ ++ ·) hreplies, hend, hvars⟩
  · obtain ⟨hlength, hline⟩ := course_append_of_ended hending (line :: back)
    rw [hline, (course_append_of_ended hending back).2, Course.without,
      List.eraseIdx_of_length_le hlength]
    exact ⟨rfl, rfl, fun _ _ => rfl⟩

/-! ### Values kept -/

/-- A variable keeps its value as long as no line gives it another. -/
theorem course_get? {name : String} {x : Float} (hm : m.Precise) (h : vars.get? name = some x)
    (lines : List String)
    (hlines : ∀ front line back, lines = front ++ line :: back → target line = some name →
      ∀ y, (m.evaluation (m.course vars front).vars line).result ≠ .ok y) :
    (m.course vars lines).vars.get? name = some x := by
  induction lines generalizing vars with
  | nil => exact h
  | cons line lines ih =>
      have heq : m.evaluation vars line = m.evaluation vars line := Eq.refl _
      obtain ⟨outputs, ⟨hstep, -⟩ | ⟨next, hstop, hstep, -⟩⟩ := step_congr hm heq
      · rw [course_cons_go hstep]
        have hkept : (m.follow vars line).get? name = some x := by
          cases htarget : target line with
          | none =>
            rw [follow_of_target htarget]
            exact h
          | some other =>
            cases hresult : (m.evaluation vars line).result with
            | error cause =>
                rw [follow_of_error hresult]
                exact h
            | ok y =>
                rw [follow_of_ok htarget hresult, Table.get?_insert, if_neg]
                · exact h
                · rintro rfl
                  exact hlines [] line lines rfl htarget y hresult
        refine ih hkept fun front l back hl => ?_
        have hfront := hlines (line :: front) l back (by rw [hl]; rfl)
        rwa [course_cons_go hstep] at hfront
      · rw [course_cons_stop hstep hstop]
        exact h

/-- A value that a line gives to a name is there for the lines behind it. -/
theorem course_assigned {name : String} {x : Float} (hm : m.Precise) {front : List String}
    (hgoing : (m.course vars front).ending = none) (htarget : target line = some name)
    (hx : (m.evaluation (m.course vars front).vars line).result = .ok x) (mid : List String)
    (hmid : ∀ before later after, mid = before ++ later :: after → target later = some name →
      ∀ y, (m.evaluation (m.course vars (front ++ line :: before)).vars later).result ≠ .ok y) :
    (m.course vars (front ++ line :: mid)).vars.get? name = some x := by
  have hgap : ∀ failure,
        (m.evaluation (m.course vars front).vars line).result ≠ .error (.raised failure) := by
    simp [hx]
  obtain ⟨outputs, hstep⟩ := exists_step_eq_go hm (not_idle_of_target htarget).2 hgap
  rw [follow_of_ok htarget hx] at hstep
  have hvars (lines : List String) : (m.course vars (front ++ line :: lines)).vars =
      (m.course ((m.course vars front).vars.insert name x) lines).vars := by
    rw [(course_append_of_going hgoing _).2, course_cons_go hstep]
    rfl
  rw [hvars]
  refine course_get? hm ?_ mid fun before later after hlines htarget' => ?_
  · rw [Table.get?_insert, if_pos rfl]
  · have hlater := hmid before later after hlines htarget'
    rw [hvars] at hlater
    exact hlater

/-- What the evaluation of a name comes to that is not built in: the value that it was given. -/
theorem evaluationOf_name {name : String} (hname : Text.isName name.toList)
    (hfunction : Builtin.ofName? name = none)
    (hconstant : Scope.builtin.constants.get? name = none) {x : Float}
    (hx : vars.get? name = some x) (hlength : (name.length : Int) ≤ m.limits.length)
    (hframes : 6 ≤ m.limits.frames) :
    (m.evaluationOf vars name).result = .ok x := by
  have hrole : { Scope.builtin with vars }.role? name = some .var :=
    Scope.role?_eq_var_iff.2 ⟨hfunction, hconstant, by simp [hx]⟩
  exact evaluate_variable hname hrole hx hlength hframes m.order

/-- Lines affect each other through values that they give to names, and in no other way: a run writes
the course of its lines, and
- a line that is blank, fails, or gives no name a value can be taken out, unless it leaves;
- a line that gives a name a value reads the variables as they were, and changes them only by that
  value, if it has one;
- the value is there for all lines behind, as it is, up to one that gives the name another;
- a value given to a name that is built in is seen by none of them. -/
theorem interact_isolates_lines (hm : m.Precise) :
    (∀ ending vars lines,
      m.interact ending vars lines = (m.course vars lines).transcript ending) ∧
    (∀ vars front line back, isExit line = false →
      (isBlank line ∨ target line = none ∨
        ∃ h, (m.evaluation (m.course vars front).vars line).result = .error h) →
      (∀ failure,
        (m.evaluation (m.course vars front).vars line).result ≠ .error (.raised failure)) →
        (m.course vars (front ++ line :: back)).without front.length =
          m.course vars (front ++ back)) ∧
    (∀ vars line name, target line = some name →
      (∀ failure, (m.evaluation vars line).result ≠ .error (.raised failure)) →
        ∃ r text, Report.ofResult (m.evaluation vars line).result = .ok r ∧
          m.render r = .ok text ∧
          (∀ h, (m.evaluation vars line).result = .error h →
            m.step vars line = (m.notes vars line ++ [.out text], .go vars)) ∧
          ∀ x, (m.evaluation vars line).result = .ok x →
            m.step vars line = (m.notes vars line ++ [.out text], .go (vars.insert name x))) ∧
    (∀ vars front line mid name x, (m.course vars front).ending = none →
      target line = some name →
      (m.evaluation (m.course vars front).vars line).result = .ok x →
      (∀ before later after, mid = before ++ later :: after → target later = some name →
        ∀ y, (m.evaluation (m.course vars (front ++ line :: before)).vars later).result ≠ .ok y) →
        (m.course vars (front ++ line :: mid)).vars.get? name = some x ∧
        (Builtin.ofName? name = none → Scope.builtin.constants.get? name = none →
          (name.length : Int) ≤ m.limits.length → 6 ≤ m.limits.frames →
            (m.evaluationOf (m.course vars (front ++ line :: mid)).vars name).result = .ok x)) ∧
    (∀ vars front line back name x, target line = some name →
      (Builtin.ofName? name).isSome ∨ (Scope.builtin.constants.get? name).isSome →
      (m.evaluation (m.course vars front).vars line).result = .ok x →
        ((m.course vars (front ++ line :: back)).without front.length).replies =
            (m.course vars (front ++ back)).replies ∧
          (m.course vars (front ++ line :: back)).ending =
            (m.course vars (front ++ back)).ending ∧
          ∀ other, other ≠ name → (m.course vars (front ++ line :: back)).vars.get? other =
            (m.course vars (front ++ back)).vars.get? other) := by
  refine ⟨?_, ?_, ?_, ?_, ?_⟩
  · exact fun ending vars lines => interact_eq_course m vars ending lines
  · intro vars front line back hexit hkeeps hgap
    refine course_without hm hexit ?_ hgap back
    rcases hkeeps with hblank | hkeeps
    · exact .inl (target_of_isBlank hblank)
    · exact hkeeps
  · intro vars line name htarget hgap
    obtain ⟨hblank, hexit⟩ := not_idle_of_target htarget
    obtain ⟨r, hreport⟩ := exists_report hgap
    obtain ⟨text, htext⟩ := hm.render r
    have hstep := step_of_report hblank hexit hreport htext
    refine ⟨r, text, hreport, htext, fun h herror => ?_, fun x hx => ?_⟩
    · rw [hstep, follow_of_error herror]
    · rw [hstep, follow_of_ok htarget hx]
  · intro vars front line mid name x hgoing htarget hx hmid
    have hkept := course_assigned hm hgoing htarget hx mid hmid
    refine ⟨hkept, fun hfunction hconstant hlength hframes => ?_⟩
    exact evaluationOf_name (target_eq_some htarget).1 hfunction hconstant hkept hlength hframes
  · intro vars front line back name x htarget hname hx
    exact course_without_builtin hm htarget hname hx back

/-- A line that fails is taken out. -/
theorem interact_isolates_lines_unknown_name :
    (⟨⟨10000, 1000⟩, .fromLeft, .human, .given 12, 30⟩ : Manner).Precise ∧
      (Manner.course ⟨⟨10000, 1000⟩, .fromLeft, .human, .given 12, 30⟩ ∅
          ["y +", "x = 2", "x"]).without 0 =
        Manner.course ⟨⟨10000, 1000⟩, .fromLeft, .human, .given 12, 30⟩ ∅ ["x = 2", "x"] := by
  let m : Manner := ⟨⟨10000, 1000⟩, .fromLeft, .human, .given 12, 30⟩
  have hm : m.Precise := ⟨12, 12, rfl, rfl⟩
  have hresult : (m.evaluation ∅ "y +").result =
      .error (.fault (.unknownIdentifier "y")) := by
    with_unfolding_all rfl
  refine ⟨hm, ?_⟩
  exact (interact_isolates_lines hm).2.1 ∅ [] "y +" ["x = 2", "x"] (by decide)
    (.inr (.inr ⟨_, hresult⟩)) (fun _ h => by cases hresult.symm.trans h)

end Manner
end Reckoner.Command
