import Mathlib.Data.List.Forall2
import Mathlib.Data.List.Perm.Basic
import Reckoner.Proofs.Command.Lines
import Reckoner.Proofs.Command.Words
import Reckoner.Proofs.Relevance
import Reckoner.Proofs.Table

/-!
Commands that evaluate one expression. Such a command is an evaluation with its bindings for
variables, and a code that tells what came of it; a binding that is none comes before everything else.
-/

namespace Reckoner

namespace Report

theorem json_success (x : Float) :
    (success x).json = "\x7b\"ok\": true, \"result\": " ++ Json.number x ++ "\x7d" := by
  have hok : Json.text "ok" = "\"ok\"" := by decide +kernel
  have hresult : Json.text "result" = "\"result\"" := by decide +kernel
  apply String.toList_injective
  simp [json, fields, success, Json.object, Json.field, hok, hresult]

theorem json_failure (message code : String) :
    (failure message code).json =
      "\x7b\"ok\": false, \"error\": " ++ Json.text message ++ ", \"error_code\": "
        ++ Json.text code ++ "\x7d" := by
  have hok : Json.text "ok" = "\"ok\"" := by decide +kernel
  have herror : Json.text "error" = "\"error\"" := by decide +kernel
  have hcode : Json.text "error_code" = "\"error_code\"" := by decide +kernel
  apply String.toList_injective
  simp [json, fields, failure, Json.object, Json.field, hok, herror, hcode]

end Report

namespace Command

namespace Form

def name : Form → String
  | .human => "human"
  | .json => "json"

/-- The line for a value: as it is shown, or in an object. -/
def valueLine (form : Form) (shown : String) (x : Float) : String :=
  match form with
  | .human => shown ++ "\n"
  | .json => "\x7b\"ok\": true, \"result\": " ++ Json.number x ++ "\x7d\n"

/-- The line for a failure: its message, or an object with the message and its code. -/
def failureLine (form : Form) (message code : String) : String :=
  match form with
  | .human => "Error: " ++ message ++ "\n"
  | .json =>
    "\x7b\"ok\": false, \"error\": " ++ Json.text message ++ ", \"error_code\": "
      ++ Json.text code ++ "\x7d\n"

end Form

/-- A command that evaluates an expression with bindings, and says how the value is found and how it
is shown. -/
structure OneShot where
  expression : String
  bindings : List String := []
  fromRight : Bool := false
  form : Option Form := none
  precision : Option String := none

theorem Options.logger_of_level {o : Options} {level : String} (h : o.logLevel = .given level) :
    o.logger = ((Log.Logger.fresh.setUp level o.logFile).1,
      (Log.Logger.fresh.setUp level o.logFile).2.map .level) := by
  simp only [Options.logger, h]

namespace Manner

/-- An evaluation ends with a code below two, or breaks off. -/
theorem ending_once (m : Manner) (vars : Table Float) (subject : Log.Subject) :
    (∃ code < 2, (m.once vars subject).ending = .returned code) ∨
      ∃ cause, (m.once vars subject).ending = .escaped cause := by
  unfold once
  generalize m.report vars subject = report
  obtain ⟨records, result⟩ := report
  cases result with
  | error h => exact .inr ⟨_, rfl⟩
  | ok r =>
      cases hrender : m.render r with
      | error cause => exact .inr ⟨cause, by simp only [hrender]⟩
      | ok text =>
          refine .inl ⟨if r.ok then 0 else 1, ?_, by simp only [hrender]⟩
          split <;> decide

/-- A value is rendered as the line for it. -/
theorem render_success {m : Manner} {p : Int} (hp : m.precision = .given p) {x : Float}
    {shown : String} (hshown : displayFloat p x = .ok shown) :
    m.render (.success x) = .ok (m.form.valueLine shown x) := by
  have hdisplay : m.display x = .ok shown := by
    simp only [display, hp, hshown]
    rfl
  unfold render
  cases m.form with
  | human =>
      simp only [Report.success, hdisplay, if_true]
      rfl
  | json =>
      have hline : (Report.success x).json ++ "\n" = Form.json.valueLine shown x := by
        rw [Report.json_success, String.append_assoc]
        rfl
      exact congrArg Except.ok hline

/-- A failure is rendered as the line for it. -/
theorem render_failure (m : Manner) (message code : String) :
    m.render (.failure message code) = .ok (m.form.failureLine message code) := by
  unfold render
  cases m.form with
  | human => rfl
  | json =>
      have hline : (Report.failure message code).json ++ "\n" =
          Form.json.failureLine message code := by
        rw [Report.json_failure, String.append_assoc]
        rfl
      exact congrArg Except.ok hline

end Manner

namespace OneShot

def words (c : OneShot) : List String :=
  Flag.expression.join c.expression :: (c.bindings.map Flag.binding.join ++
    ((if c.fromRight then [Flag.fromRight.long] else []) ++
      ((c.form.map fun form => Flag.form.join form.name).toList ++
        (c.precision.map Flag.precision.join).toList)))

variable (c : OneShot) (settings : Settings)

/-- The number of digits that the command asks for. -/
def digits : Except Numeral.IntegerFault Int :=
  match c.precision with
  | some text => Numeral.integer text
  | none => .ok settings.precision

def order : PowerOrder := if c.fromRight then .fromRight else settings.order

/-- What the words set. -/
def options (p : Int) : Options where
  expression := some (.given c.expression)
  bindings := c.bindings.map .given
  fromRight := c.fromRight
  form := c.form.getD .human
  precision := c.precision.map fun _ => .given p
  logLevel := .given (Text.upper settings.logLevel)

/-- The manner of the command, with a number of frames. -/
def manner (frames : Nat) (p : Int) : Manner where
  limits := settings.limits frames
  order := c.order settings
  form := c.form.getD .human
  precision := .given p
  threshold := (Log.Logger.fresh.setUp (Text.upper settings.logLevel) none).1.threshold

variable {c settings} {p : Int}

/-! ### Words -/

section

variable (o : Options)

theorem parseFrom_order (fromRight : Bool) (words : List String) :
    o.parseFrom [] ((if fromRight then [Flag.fromRight.long] else []) ++ words) =
      { o with fromRight := fromRight || o.fromRight }.parseFrom [] words := by
  cases fromRight with
  | true => exact Options.parseFrom_fromRight words
  | false => rfl

theorem parseFrom_form (form : Option Form) (words : List String) :
    o.parseFrom [] ((form.map fun form => Flag.form.join form.name).toList ++ words) =
      { o with form := form.getD o.form }.parseFrom [] words := by
  cases form with
  | none => rfl
  | some form =>
      have hname : form.name ≠ "--" := by cases form <;> decide
      have hset : o.setText .form form.name = .ok { o with form := form } := by
        cases form <;> rfl
      exact Options.parseFrom_join rfl hname hset words

theorem parseFrom_precision {precision : Option String}
    (h : ∀ text, precision = some text → Numeral.integer text = .ok p) :
    o.parseFrom [] (precision.map Flag.precision.join).toList =
      .ok (.run { o with precision := (precision.map fun _ => .given p).or o.precision }) := by
  cases precision with
  | none => rfl
  | some text =>
      have hinteger := h text rfl
      have hne : text ≠ "--" := by
        rintro rfl
        cases hinteger
      have hset : o.setText .precision text = .ok { o with precision := some (.given p) } := by
        simp only [Options.setText, hinteger]
        rfl
      exact Options.parseFrom_join rfl hne hset []

end

/-- The words set what they say. -/
theorem parse_words (hexpression : c.expression ≠ "--") (hbindings : "--" ∉ c.bindings)
    (hp : c.digits settings = .ok p) :
    Options.parse settings c.words = .ok (.run (c.options settings p)) := by
  have hprecision : ∀ text, c.precision = some text → Numeral.integer text = .ok p := by
    intro text htext
    unfold digits at hp
    rw [htext] at hp
    exact hp
  rw [Options.parse_eq_parseFrom, words, Options.parseFrom_join rfl hexpression rfl,
    Options.parseFrom_bindings hbindings, parseFrom_order, parseFrom_form,
    parseFrom_precision _ hprecision]
  unfold options
  simp

/-! ### Bindings -/

/-- The texts are bindings, of the names to the values. -/
abbrev Bind (bindings : List String) (pairs : List (String × Float)) : Prop :=
  List.Forall₂ (fun binding pair => Binding.parse binding = .ok pair) bindings pairs

theorem bindAll_of_bind {bindings : List String} {pairs : List (String × Float)}
    (h : Bind bindings pairs) (vars : Table Float) :
    Options.bindAll vars (bindings.map .given) =
      .ok (pairs.foldl (fun t (name, x) => t.insert name x) vars) := by
  induction h generalizing vars with
  | nil => rfl
  | @cons binding pair bindings pairs hbinding _ ih =>
      obtain ⟨name, x⟩ := pair
      rw [List.map_cons, Options.bindAll, hbinding]
      exact ih _

/-- The first text that is no binding is refused. -/
theorem bindAll_of_fault {front back : List String} {bad : String} {fault : BindingFault}
    (hfront : ∀ binding ∈ front, ∃ pair, Binding.parse binding = .ok pair)
    (hbad : Binding.parse bad = .error fault) (vars : Table Float) :
    Options.bindAll vars ((front ++ bad :: back).map .given) = .error (Options.refuse fault) := by
  induction front generalizing vars with
  | nil =>
      rw [List.nil_append, List.map_cons, Options.bindAll, hbad]
      rfl
  | cons binding front ih =>
      obtain ⟨⟨name, x⟩, hbinding⟩ := hfront binding List.mem_cons_self
      rw [List.cons_append, List.map_cons, Options.bindAll, hbinding]
      exact ih (fun other hother => hfront other (List.mem_cons_of_mem _ hother)) _

/-- Texts are all bindings, or there is a first one that is none. -/
theorem bind_or_fault (bindings : List String) :
    (∃ pairs, Bind bindings pairs) ∨
      ∃ front bad back fault, bindings = front ++ bad :: back ∧
        (∀ binding ∈ front, ∃ pair, Binding.parse binding = .ok pair) ∧
        Binding.parse bad = .error fault := by
  induction bindings with
  | nil => exact .inl ⟨[], .nil⟩
  | cons binding bindings ih =>
      cases hparse : Binding.parse binding with
      | error fault =>
          exact .inr ⟨[], binding, bindings, fault, rfl, List.forall_mem_nil _, hparse⟩
      | ok pair =>
          rcases ih with ⟨pairs, hpairs⟩ | ⟨front, bad, back, fault, rfl, hfront, hbad⟩
          · exact .inl ⟨pair :: pairs, .cons hparse hpairs⟩
          · refine .inr ⟨binding :: front, bad, back, fault, rfl, ?_, hbad⟩
            exact List.forall_mem_cons.2 ⟨⟨pair, hparse⟩, hfront⟩

theorem Bind.exists_of_mem {bindings : List String} {pairs : List (String × Float)}
    (h : Bind bindings pairs) :
    ∀ binding ∈ bindings, ∃ pair, Binding.parse binding = .ok pair := by
  induction h with
  | nil => exact List.forall_mem_nil _
  | cons hbinding _ ih => exact List.forall_mem_cons.2 ⟨⟨_, hbinding⟩, ih⟩

/-- Two dashes are no binding. -/
theorem Bind.dashes_not_mem {bindings : List String} {pairs : List (String × Float)}
    (h : Bind bindings pairs) : "--" ∉ bindings := by
  intro hmem
  obtain ⟨pair, hpair⟩ := h.exists_of_mem _ hmem
  cases hpair

/-! ### Runs -/

theorem logger_options (c : OneShot) (settings : Settings) (p : Int) :
    (c.options settings p).logger =
      ((Log.Logger.fresh.setUp (Text.upper settings.logLevel) none).1,
        (Log.Logger.fresh.setUp (Text.upper settings.logLevel) none).2.map .level) :=
  Options.logger_of_level rfl

theorem manner_options (hp : c.digits settings = .ok p) (frames : Nat) :
    (c.options settings p).manner settings frames = c.manner settings frames p := by
  have hprecision : (c.options settings p).precision.getD (.given settings.precision) =
      .given p := by
    unfold options
    unfold digits at hp
    cases hc : c.precision with
    | some text => rfl
    | none =>
        rw [hc] at hp
        obtain rfl := Except.ok.inj hp
        rfl
  simp only [Options.manner, hprecision, logger_options, manner]
  rfl

theorem finish_function (t : Transcript) : Entry.function.finish t = t := by
  obtain ⟨outputs, ending⟩ := t
  cases ending <;> rfl

/-- An evaluation that is reported is shown behind its records, and its code tells whether there is a
value. -/
theorem once_of_report {m : Manner} {vars : Table Float} {text : String} {r : Report}
    (hreport : Report.ofResult (m.evaluationOf vars text).result = .ok r) {shown : String}
    (hshown : m.render r = .ok shown) :
    m.once vars (.expression text) =
      ⟨m.emit (Log.trace (.expression text) (m.evaluationOf vars text)) ++ [.out shown],
        .returned (if r.ok then 0 else 1)⟩ := by
  unfold Manner.once
  simp only [m.report_expression, hreport, hshown]

theorem once_congr {m : Manner} {vars vars' : Table Float} {text : String}
    (h : m.evaluationOf vars text = m.evaluationOf vars' text) :
    m.once vars (.expression text) = m.once vars' (.expression text) := by
  unfold Manner.once
  rw [m.report_expression, m.report_expression, h]

/-- An evaluation has the code of a value or of a failure, and no other. -/
theorem ending_once_ne (m : Manner) (vars : Table Float) (subject : Log.Subject) :
    (m.once vars subject).ending ≠ .returned 2 := by
  rcases m.ending_once vars subject with ⟨code, hcode, hending⟩ | ⟨cause, hending⟩
  · rw [hending]
    intro htwo
    injection htwo with htwo
    exact hcode.ne htwo
  · simp [hending]

/-- Records are not on standard output. -/
theorem onOutput_emit_append (m : Manner) (records : List Log.Record) (outputs : List Output)
    (ending : Ending) :
    (⟨m.emit records ++ outputs, ending⟩ : Transcript).onOutput =
      (⟨outputs, ending⟩ : Transcript).onOutput := by
  unfold Transcript.onOutput
  rw [List.filterMap_append, List.filterMap_eq_nil_iff.2, List.nil_append]
  intro output houtput
  obtain ⟨record, -, rfl⟩ := List.mem_map.1 houtput
  rfl

theorem onOutput_emit (m : Manner) (records : List Log.Record) (text : String) (ending : Ending) :
    (⟨m.emit records ++ [.out text], ending⟩ : Transcript).onOutput = text := by
  rw [onOutput_emit_append]
  simp [Transcript.onOutput]

/-- The variables of bindings, as they are handed in. -/
def values (pairs : List (String × Float)) : Table Value :=
  Table.ofList (pairs.map (Prod.map id .real))

/-- Of bindings with the same name the last one counts. -/
theorem get?_values (pairs : List (String × Float)) (name : String) :
    (values pairs).get? name = (pairs.reverse.lookup name).map .real := by
  rw [values, Table.get?_ofList, ← List.map_reverse, Table.lookup_map]

/-- The environment and the words of the command hold no fault but those of its bindings and of its
expression. -/
structure Accepted (c : OneShot) (environment : Table String) (settings : Settings) (p : Int) :
    Prop where
  ofEnvironment : Settings.ofEnvironment environment = .ok settings
  level : ∃ n, Log.levelOf (Text.upper settings.logLevel) = .ok n
  expression : c.expression ≠ "--"
  bindings : "--" ∉ c.bindings
  digits : c.digits settings = .ok p

section Run

variable {environment : Table String} (frames : Nat) (h : c.Accepted environment settings p)
  (input : String) (ending : Manner.InputEnd)

include h

/-- Texts that are bindings take the place of others. -/
theorem Accepted.rebind {bindings : List String} {pairs : List (String × Float)}
    (hpairs : Bind bindings pairs) :
    { c with bindings := bindings }.Accepted environment settings p :=
  ⟨h.ofEnvironment, h.level, h.expression, hpairs.dashes_not_mem, h.digits⟩

/-- The command binds, and evaluates its expression with what is bound. -/
theorem run_words :
    run frames .function environment c.words input ending =
      match Options.bindAll ∅ (c.bindings.map .given) with
      | .error transcript => transcript
      | .ok vars => (c.manner settings frames p).once vars (.expression c.expression) := by
  obtain ⟨n, hn⟩ := h.level
  have hlogger : (c.options settings p).logger.2 = none := by
    simp only [logger_options, Log.Logger.setUp, hn]
    rfl
  unfold run Plan.ofWords
  rw [finish_function, h.ofEnvironment]
  simp only [parse_words h.expression h.bindings h.digits, Options.plan, hlogger]
  have hoptions : (c.options settings p).version = false ∧
      (c.options settings p).bindings = c.bindings.map .given ∧
      (c.options settings p).expression = some (.given c.expression) := ⟨rfl, rfl, rfl⟩
  rw [hoptions.1, hoptions.2.1, hoptions.2.2, manner_options h.digits frames]
  cases Options.bindAll ∅ (c.bindings.map .given) <;> rfl

theorem run_eq_once {pairs : List (String × Float)} (hpairs : Bind c.bindings pairs) :
    run frames .function environment c.words input ending =
      (c.manner settings frames p).once (Table.ofList pairs) (.expression c.expression) := by
  rw [run_words frames h, bindAll_of_bind hpairs]
  rfl

/-- What a command comes to that is the evaluation of its expression: it writes one line, for the value
or for the failure, and its code tells which. -/
theorem run_of_bind {pairs : List (String × Float)} (hpairs : Bind c.bindings pairs)
    (hprecision : ∃ digits, precisionDigits p = .ok digits) {outcome : Except Failure Float}
    (houtcome : outcome =
      evaluateWith (settings.limits frames) (values pairs) (c.order settings) c.expression)
    (hraised : ∀ failure, outcome ≠ .error (.halt (.raised failure))) :
    ∃ line code,
      (run frames .function environment c.words input ending).onOutput = line ∧
      (run frames .function environment c.words input ending).ending = .returned code ∧
      ((∃ x shown, outcome = .ok x ∧ displayFloat p x = .ok shown ∧
          line = (c.form.getD .human).valueLine shown x ∧ code = 0) ∨
        (∃ fault, outcome = .error (.halt (.fault fault)) ∧
          line = (c.form.getD .human).failureLine fault.message fault.code ∧ code = 1) ∨
        outcome = .error (.halt .tooDeep) ∧
          line = (c.form.getD .human).failureLine "Expression is nested too deeply" "TOO_DEEP" ∧
          code = 1) := by
  let m := c.manner settings frames p
  have hwith : outcome =
      (m.evaluationOf (Table.ofList pairs) c.expression).result.mapError .halt := by
    rw [houtcome, values, evaluateWith_doubles]
    rfl
  rw [run_eq_once frames h input ending hpairs]
  rcases evaluate_cases m.limits { Scope.builtin with vars := Table.ofList pairs } m.order
    c.expression with ⟨x, hx⟩ | ⟨fault, hx⟩ | hx | ⟨failure, hx⟩
  · obtain ⟨digits, hdigits⟩ := hprecision
    obtain ⟨shown, hshown⟩ := Manner.exists_displayFloat hdigits x
    have hreport : Report.ofResult (m.evaluationOf (Table.ofList pairs) c.expression).result =
        .ok (.success x) := congrArg Report.ofResult hx
    rw [once_of_report hreport (Manner.render_success rfl hshown)]
    refine ⟨_, 0, onOutput_emit .., rfl, .inl ⟨x, shown, ?_, hshown, rfl, rfl⟩⟩
    rw [hwith]
    exact congrArg (Except.mapError Failure.halt) hx
  · have hreport : Report.ofResult (m.evaluationOf (Table.ofList pairs) c.expression).result =
        .ok (.failure fault.message fault.code) := congrArg Report.ofResult hx
    rw [once_of_report hreport (Manner.render_failure ..)]
    refine ⟨_, 1, onOutput_emit .., rfl, .inr (.inl ⟨fault, ?_, rfl, rfl⟩)⟩
    rw [hwith]
    exact congrArg (Except.mapError Failure.halt) hx
  · have hreport : Report.ofResult (m.evaluationOf (Table.ofList pairs) c.expression).result =
        .ok (.failure Halt.tooDeep.message "TOO_DEEP") := congrArg Report.ofResult hx
    rw [once_of_report hreport (Manner.render_failure ..)]
    refine ⟨_, 1, onOutput_emit .., rfl, .inr (.inr ⟨?_, rfl, rfl⟩)⟩
    rw [hwith]
    exact congrArg (Except.mapError Failure.halt) hx
  · refine absurd ?_ (hraised failure)
    rw [hwith]
    exact congrArg (Except.mapError Failure.halt) hx

/-- A text that is no binding ends the command before the expression is looked at. -/
theorem run_of_fault {front back : List String} {bad : String} {fault : BindingFault}
    (hsplit : c.bindings = front ++ bad :: back)
    (hfront : ∀ binding ∈ front, ∃ pair, Binding.parse binding = .ok pair)
    (hbad : Binding.parse bad = .error fault) :
    run frames .function environment c.words input ending =
      ⟨[.err ("Error: " ++ fault.message ++ "\n")], .returned 2⟩ := by
  rw [run_words frames h, hsplit, bindAll_of_fault hfront hbad]
  rfl

theorem run_eq_returned_two_iff :
    (run frames .function environment c.words input ending).ending = .returned 2 ↔
      ∃ binding ∈ c.bindings, ∃ fault, Binding.parse binding = .error fault := by
  rcases bind_or_fault c.bindings with
    ⟨pairs, hpairs⟩ | ⟨front, bad, back, fault, hsplit, hfront, hbad⟩
  · rw [run_eq_once frames h input ending hpairs]
    constructor
    · intro htwo
      exact absurd htwo (ending_once_ne _ _ _)
    · rintro ⟨binding, hmem, fault, hfault⟩
      obtain ⟨pair, hpair⟩ := hpairs.exists_of_mem binding hmem
      cases hfault.symm.trans hpair
  · rw [run_of_fault frames h input ending hsplit hfront hbad]
    refine ⟨fun _ => ⟨bad, ?_, fault, hbad⟩, fun _ => rfl⟩
    rw [hsplit]
    exact List.mem_append_right _ List.mem_cons_self

/-- Of the bindings of a name only the last has a say. -/
theorem run_congr {bindings' : List String} {pairs pairs' : List (String × Float)}
    (hpairs : Bind c.bindings pairs) (hpairs' : Bind bindings' pairs')
    (hlast : ∀ name, pairs.reverse.lookup name = pairs'.reverse.lookup name) :
    run frames .function environment { c with bindings := bindings' }.words input ending =
      run frames .function environment c.words input ending := by
  have hsame : { Scope.builtin with vars := Table.ofList pairs' }.SameTables
      { Scope.builtin with vars := Table.ofList pairs } := by
    refine ⟨fun _ => rfl, fun name => ?_⟩
    show (Table.ofList pairs').get? name = (Table.ofList pairs).get? name
    rw [Table.get?_ofList, Table.get?_ofList, hlast]
  have hrun' := run_eq_once frames (h.rebind hpairs') input ending hpairs'
  have hmanner : { c with bindings := bindings' }.manner settings frames p =
      c.manner settings frames p := rfl
  have hevaluation : (c.manner settings frames p).evaluationOf (Table.ofList pairs') c.expression =
      (c.manner settings frames p).evaluationOf (Table.ofList pairs) c.expression :=
    evaluate_congr (fun name _ => hsame.sameAt name) _ _
  rw [hrun', run_eq_once frames h input ending hpairs, hmanner]
  exact once_congr hevaluation

end Run

/-- A command with an expression is the evaluation of the expression, and a code.
- It ends with the code 2 exactly if a text for a binding is none, and then it says so of the first such
  text, and nothing else, whatever the expression is.
- Else the code tells whether the evaluation with the bindings has a value or fails, and on standard
  output there is one line, with the value or with the message, in words or as an object. With more
  frames, as where it is no part of a command, the evaluation comes to the same, but where the command
  finds the nesting too deep.
- The last binding of a name counts; so bindings that agree on the last one for each name make the same
  command, and so do bindings of different names in another order. -/
theorem run_evaluates_expression (frames : Nat) {environment : Table String} {settings : Settings}
    (hsettings : Settings.ofEnvironment environment = .ok settings)
    (hlevel : ∃ n, Log.levelOf (Text.upper settings.logLevel) = .ok n) {c : OneShot}
    (hexpression : c.expression ≠ "--") (hbindings : "--" ∉ c.bindings) {p : Int}
    (hp : c.digits settings = .ok p) (hprecision : ∃ digits, precisionDigits p = .ok digits)
    (input : String) (ending : Manner.InputEnd) :
    ((run frames .function environment c.words input ending).ending = .returned 2 ↔
      ∃ binding ∈ c.bindings, ∃ fault, Binding.parse binding = .error fault) ∧
    (∀ front bad back fault, c.bindings = front ++ bad :: back →
      (∀ binding ∈ front, ∃ pair, Binding.parse binding = .ok pair) →
      Binding.parse bad = .error fault →
        run frames .function environment c.words input ending =
          ⟨[.err ("Error: " ++ fault.message ++ "\n")], .returned 2⟩) ∧
    ∀ pairs, Bind c.bindings pairs →
      (∀ outcome, outcome =
          evaluateWith (settings.limits frames) (values pairs) (c.order settings) c.expression →
        (∀ failure, outcome ≠ .error (.halt (.raised failure))) →
          ((run frames .function environment c.words input ending).ending = .returned 0 ↔
            ∃ x, outcome = .ok x) ∧
          ((run frames .function environment c.words input ending).ending = .returned 1 ↔
            ∃ failure, outcome = .error failure) ∧
          (∀ x, outcome = .ok x → ∃ shown, displayFloat p x = .ok shown ∧
            (run frames .function environment c.words input ending).onOutput =
              (c.form.getD .human).valueLine shown x) ∧
          ∀ failure, outcome = .error failure →
            (∃ fault, failure = .halt (.fault fault) ∧
              (run frames .function environment c.words input ending).onOutput =
                (c.form.getD .human).failureLine fault.message fault.code) ∨
            failure = .halt .tooDeep ∧
              (run frames .function environment c.words input ending).onOutput =
                (c.form.getD .human).failureLine "Expression is nested too deeply" "TOO_DEEP") ∧
      (∀ more, frames ≤ more →
        evaluateWith (settings.limits frames) (values pairs) (c.order settings) c.expression ≠
          .error (.halt .tooDeep) →
        evaluateWith (settings.limits more) (values pairs) (c.order settings) c.expression =
          evaluateWith (settings.limits frames) (values pairs) (c.order settings) c.expression) ∧
      (∀ name, (values pairs).get? name = (pairs.reverse.lookup name).map .real) ∧
      (∀ bindings' pairs', Bind bindings' pairs' →
        (∀ name, pairs.reverse.lookup name = pairs'.reverse.lookup name) →
          run frames .function environment { c with bindings := bindings' }.words input ending =
            run frames .function environment c.words input ending) ∧
      (∀ bindings', c.bindings.Perm bindings' → (pairs.map Prod.fst).Nodup →
        run frames .function environment { c with bindings := bindings' }.words input ending =
          run frames .function environment c.words input ending) := by
  have h : c.Accepted environment settings p := ⟨hsettings, hlevel, hexpression, hbindings, hp⟩
  refine ⟨?_, ?_, fun pairs hpairs => ⟨fun outcome houtcome hraised => ?_, ?_, get?_values pairs,
    ?_, ?_⟩⟩
  · exact run_eq_returned_two_iff frames h input ending
  · intro front bad back fault hsplit hfront hbad
    exact run_of_fault frames h input ending hsplit hfront hbad
  · obtain ⟨line, code, hline, hcode, hcases⟩ :=
      run_of_bind frames h input ending hpairs hprecision houtcome hraised
    rw [hline, hcode]
    clear houtcome hraised
    rcases hcases with ⟨x, shown, rfl, hshown, rfl, rfl⟩ | ⟨fault, rfl, rfl, rfl⟩ | ⟨rfl, rfl, rfl⟩
    · refine ⟨by simp, by simp, fun y hy => ?_, nofun⟩
      obtain rfl := Except.ok.inj hy
      exact ⟨shown, hshown, rfl⟩
    · refine ⟨by simp, by simp, nofun, fun failure hfailure => ?_⟩
      exact .inl ⟨fault, (Except.error.inj hfailure).symm, rfl⟩
    · refine ⟨by simp, by simp, nofun, fun failure hfailure => ?_⟩
      exact .inr ⟨(Except.error.inj hfailure).symm, rfl⟩
  · intro more hmore hdeep
    exact evaluateWith_of_frames hmore hdeep
  · intro bindings' pairs' hpairs' hlast
    exact run_congr frames h input ending hpairs hpairs' hlast
  · intro bindings' hperm hnodup
    obtain ⟨pairs', hpairs', hpairsPerm⟩ := List.perm_comp_forall₂ hperm.symm hpairs
    exact run_congr frames h input ending hpairs hpairs'
      (Table.lookup_reverse_of_perm hpairsPerm.symm hnodup)

/-- The last binding counts in a value; a failure is written as an object; and no name starts with a
digit. -/
theorem run_evaluates_expression_last_object_malformed :
    ((run 1000 .function ∅ (OneShot.words { expression := "x - 1", bindings := ["x=1", "x=3"] }) ""
          .over).ending = .returned 0 ∧
      (run 1000 .function ∅ (OneShot.words { expression := "x - 1", bindings := ["x=1", "x=3"] }) ""
          .over).onOutput = "2\n") ∧
    ((run 1000 .function ∅ (OneShot.words { expression := "1 +", form := some .json }) ""
          .over).ending = .returned 1 ∧
      (run 1000 .function ∅ (OneShot.words { expression := "1 +", form := some .json }) ""
          .over).onOutput =
        "\x7b\"ok\": false, \"error\": \"Unexpected token: Token(end)\", " ++
          "\"error_code\": \"UNEXPECTED_TOKEN\"\x7d\n") ∧
    run 1000 .function ∅ (OneShot.words { expression := "1 +", bindings := ["x=1", "2x=3"] }) ""
        .over =
      ⟨[.err "Error: Invalid variable binding: '2x=3' (expected NAME=VALUE)\n"],
        .returned 2⟩ := by
  have hsettings : Settings.ofEnvironment ∅ = .ok Settings.standard := rfl
  have hone : Binding.parse "x=1" = .ok ("x", 1) := by with_unfolding_all rfl
  have hthree : Binding.parse "x=3" = .ok ("x", 3) := by with_unfolding_all rfl
  have hmalformed : Binding.parse "2x=3" = .error (.malformed "2x=3") := by with_unfolding_all rfl
  let last : OneShot := { expression := "x - 1", bindings := ["x=1", "x=3"] }
  let object : OneShot := { expression := "1 +", form := some .json }
  let malformed : OneShot := { expression := "1 +", bindings := ["x=1", "2x=3"] }
  have hlast : Except.ok 2 = evaluateWith (Settings.standard.limits 1000)
      (values [("x", 1), ("x", 3)]) (last.order Settings.standard) last.expression := by
    decide +kernel
  have hobject : Except.error (.halt (.fault (.unexpectedToken .ending))) =
      evaluateWith (Settings.standard.limits 1000) (values [])
        (object.order Settings.standard) object.expression := by
    decide +kernel
  have hshown : displayFloat 12 2 = .ok "2" := by with_unfolding_all rfl
  refine ⟨?_, ?_, ?_⟩
  · obtain ⟨-, -, hbound⟩ := run_evaluates_expression 1000 (c := last) hsettings ⟨30, rfl⟩ (by decide)
      (by decide) (p := 12) rfl ⟨12, rfl⟩ "" .over
    obtain ⟨hzero, -, hline, -⟩ := (hbound _ (.cons hone (.cons hthree .nil))).1 _ hlast nofun
    obtain ⟨shown, hshown', houtput⟩ := hline 2 rfl
    obtain rfl := Except.ok.inj (hshown.symm.trans hshown')
    exact ⟨hzero.2 ⟨2, rfl⟩, houtput⟩
  · obtain ⟨-, -, hbound⟩ := run_evaluates_expression 1000 (c := object) hsettings ⟨30, rfl⟩
      (by decide) (by decide) (p := 12) rfl ⟨12, rfl⟩ "" .over
    obtain ⟨-, hone, -, hline⟩ := (hbound [] .nil).1 _ hobject nofun
    refine ⟨hone.2 ⟨_, rfl⟩, ?_⟩
    rcases hline _ rfl with ⟨fault, hfault, houtput⟩ | ⟨hdeep, -⟩
    · cases hfault
      rw [houtput]
      decide +kernel
    · cases hdeep
  · exact (run_evaluates_expression 1000 (c := malformed) hsettings ⟨30, rfl⟩ (by decide) (by decide)
      (p := 12) rfl ⟨12, rfl⟩ "" .over).2.1 ["x=1"] "2x=3" [] _ rfl
      (List.forall_mem_singleton.2 ⟨_, hone⟩) hmalformed

end OneShot
end Command
end Reckoner
