import Reckoner.Command.Manner
import Reckoner.Proofs.Binding
import Reckoner.Proofs.Evaluation

/-!
One line of an interactive run: the expression on it, the name that its value is given to, and what
comes of it. A line reads the variables that are there before it, and changes them in one way only: it
gives a value that it has to its name.
-/

namespace Reckoner.Command.Manner

/-- The name that a line gives its value to, if any. -/
def target (line : String) : Option String := (assignment (Text.trim line)).1

/-- The expression on a line. -/
def expression (line : String) : String := (assignment (Text.trim line)).2

def isBlank (line : String) : Bool := Text.trim line = ""

def isExit (line : String) : Bool := exitWords.contains (Text.lower (Text.trim line))

/-- What is kept of a result: the value, under the name that there is for it. -/
def kept (m : Manner) (vars : Table Float) (target : Option String) (result : Except Halt Float) :
    Table Float × List Output :=
  match target, result with
  | some name, .ok x => (vars.insert name x, m.emit [Log.bound name x])
  | _, _ => (vars, [])

section

variable (m : Manner) (vars : Table Float)

def evaluationOf (text : String) : Evaluation :=
  evaluate m.limits { Scope.builtin with vars } m.order text

theorem report_expression (text : String) :
    m.report vars (.expression text) =
      (m.emit (Log.trace (.expression text) (m.evaluationOf vars text)),
        Report.ofResult (m.evaluationOf vars text).result) := rfl

variable (line : String)

/-- The evaluation of the expression on a line. -/
def evaluation : Evaluation := m.evaluationOf vars (expression line)

/-- The variables after a line. -/
def follow : Table Float := (m.kept vars (target line) (m.evaluation vars line).result).1

/-- What is logged for a line. -/
def notes : List Output :=
  m.emit (Log.trace (.expression (expression line)) (m.evaluation vars line)) ++
    (m.kept vars (target line) (m.evaluation vars line).result).2

end

/-- Results are shown with a number of digits that can be met. -/
def Precise (m : Manner) : Prop :=
  ∃ p digits, m.precision = .given p ∧ precisionDigits p = .ok digits

variable {m : Manner} {vars vars' : Table Float} {line : String}

/-! ### Assignments -/

/-- A text is divided at an equals sign, behind an identifier. -/
theorem isName_of_split? {text name rest : String}
    (h : Binding.split? text = some (name, rest)) :
    Text.isName name.toList ∧ '=' ∈ text.toList := by
  rcases Text.eq_append_or_not_mem text with ⟨front, rest', rfl, hfront⟩ | hnone
  · rw [Binding.split?_append hfront] at h
    split at h
    · obtain ⟨rfl, -⟩ := Prod.mk.inj (Option.some.inj h)
      exact ⟨‹_›, by simp⟩
    · cases h
  · cases (Binding.split?_eq_none hnone).symm.trans h

theorem target_eq (line : String) :
    target line = (Binding.split? (Text.trim line)).map Prod.fst := by
  unfold target assignment
  cases Binding.split? (Text.trim line) <;> rfl

theorem target_eq_some {name : String} (h : target line = some name) :
    Text.isName name.toList ∧ '=' ∈ (Text.trim line).toList := by
  rw [target_eq] at h
  obtain ⟨⟨n, rest⟩, hsplit, rfl⟩ := Option.map_eq_some_iff.1 h
  exact isName_of_split? hsplit

/-- A line that gives a value to a name is neither blank nor a word to leave. -/
theorem not_idle_of_target {name : String} (h : target line = some name) :
    isBlank line = false ∧ isExit line = false := by
  obtain ⟨-, hequals⟩ := target_eq_some h
  constructor
  · unfold isBlank
    apply decide_eq_false
    intro hempty
    simp [hempty] at hequals
  · unfold isExit
    have hlower : '=' ∈ (Text.lower (Text.trim line)).toList := by
      rw [Text.lower, String.toList_ofList]
      exact List.mem_map.2 ⟨'=', hequals, rfl⟩
    cases hexit : exitWords.contains (Text.lower (Text.trim line)) with
    | false => rfl
    | true =>
        -- neither word has an equals sign
        have hword := List.contains_iff_mem.1 hexit
        have hnone : ∀ word ∈ exitWords, '=' ∉ word.toList := by decide
        exact absurd hlower (hnone _ hword)

/-! ### Reports -/

/-- What came of an evaluation is reported, but for a failure that a function has raised. -/
theorem exists_report {limits : Limits} {scope : Scope} {order : PowerOrder} {text : String}
    (h : ∀ failure, (evaluate limits scope order text).result ≠ .error (.raised failure)) :
    ∃ r, Report.ofResult (evaluate limits scope order text).result = .ok r := by
  rcases evaluate_cases limits scope order text with ⟨x, hx⟩ | ⟨fault, hx⟩ | hx | ⟨failure, hx⟩
  · exact ⟨_, by rw [hx]; rfl⟩
  · exact ⟨_, by rw [hx]; rfl⟩
  · exact ⟨_, by rw [hx]; rfl⟩
  · exact absurd hx (h failure)

/-- With a number of digits that can be met every double is shown. -/
theorem exists_displayFloat {p : Int} {digits : Nat} (h : precisionDigits p = .ok digits)
    (x : Float) : ∃ text, displayFloat p x = .ok text := by
  unfold displayFloat
  by_cases hx : x.isFinite
  · exact ⟨_, by simp only [hx, if_true, h]; rfl⟩
  · exact ⟨_, by simp only [hx]; rfl⟩

theorem Precise.display (hm : m.Precise) (x : Float) : ∃ text, m.display x = .ok text := by
  obtain ⟨p, digits, hp, hdigits⟩ := hm
  obtain ⟨text, htext⟩ := exists_displayFloat hdigits x
  refine ⟨text, ?_⟩
  simp only [Manner.display, hp, htext]
  rfl

theorem Precise.render (hm : m.Precise) (r : Report) : ∃ text, m.render r = .ok text := by
  unfold Manner.render
  split
  · exact ⟨_, rfl⟩
  split
  · split
    · rename_i x _
      obtain ⟨text, htext⟩ := hm.display x
      exact ⟨_, by rw [htext]; rfl⟩
    · exact ⟨_, rfl⟩
  · exact ⟨_, rfl⟩

/-! ### Steps -/

theorem step_of_isBlank (h : isBlank line) : m.step vars line = ([], .go vars) := by
  have hline : Text.trim line = "" := of_decide_eq_true h
  simp only [step, hline, if_true]

theorem step_of_isExit (hblank : isBlank line = false) (h : isExit line) :
    m.step vars line = ([], .leave) := by
  have hline : Text.trim line ≠ "" := of_decide_eq_false hblank
  have hexit : exitWords.contains (Text.lower (Text.trim line)) := h
  simp only [step, hline, hexit, if_true, if_false]

theorem step_eq_answer (hblank : isBlank line = false) (hexit : isExit line = false) :
    m.step vars line = m.answer vars (Text.trim line) := by
  have hline : Text.trim line ≠ "" := of_decide_eq_false hblank
  have hleave : exitWords.contains (Text.lower (Text.trim line)) = false := hexit
  simp only [step, hline, hleave, if_false, Bool.false_eq_true]

theorem keep_of_report {result : Except Halt Float} {r : Report}
    (h : Report.ofResult result = .ok r) (target : Option String) :
    m.keep vars target r = m.kept vars target result := by
  cases result with
  | ok x =>
      obtain rfl := Except.ok.inj h
      cases target <;> rfl
  | error cause =>
      cases cause with
      | fault f =>
          obtain rfl := Except.ok.inj h
          cases target <;> rfl
      | tooDeep =>
          obtain rfl := Except.ok.inj h
          cases target <;> rfl
      | pastEnd | unknownName | raised => cases h

/-- A line whose evaluation is reported is answered with its report, behind its records. -/
theorem step_of_report (hblank : isBlank line = false) (hexit : isExit line = false) {r : Report}
    (hreport : Report.ofResult (m.evaluation vars line).result = .ok r) {text : String}
    (hrender : m.render r = .ok text) :
    m.step vars line = (m.notes vars line ++ [.out text], .go (m.follow vars line)) := by
  rw [step_eq_answer hblank hexit]
  unfold evaluation expression at hreport
  unfold answer notes follow evaluation target expression
  cases hparts : assignment (Text.trim line) with
  | mk target expression =>
    rw [hparts] at hreport
    simp only [report_expression, hreport, hrender, keep_of_report hreport]

/-- A line whose evaluation is not reported breaks the run off. -/
theorem step_of_halt (hblank : isBlank line = false) (hexit : isExit line = false) {h : Halt}
    (hreport : Report.ofResult (m.evaluation vars line).result = .error h) :
    m.step vars line =
      (m.emit (Log.trace (.expression (expression line)) (m.evaluation vars line)),
        .escape (.halt h)) := by
  rw [step_eq_answer hblank hexit]
  unfold evaluation expression at hreport
  unfold answer evaluation expression
  cases hparts : assignment (Text.trim line) with
  | mk target expression =>
    rw [hparts] at hreport
    simp only [report_expression, hreport]

end Reckoner.Command.Manner
