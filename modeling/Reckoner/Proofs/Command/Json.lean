import Reckoner.Proofs.Command.OneShot
import Reckoner.Proofs.Json.Decoding

/-!
Results as JSON on standard output. A command that evaluates one expression writes its report and nothing
else there, on one line of ASCII, and the line is decoded to the fields of the report; but there is no JSON
text for an infinity or for what is no number.
-/

namespace Reckoner.Command

variable {m : Manner} {vars : Table Float} {subject : Log.Subject}

/-- Every report is written as JSON, and the code tells whether it has a value. -/
theorem once_of_json (hform : m.form = .json) {r : Report}
    (hreport : Report.ofResult
      (evaluate m.limits { Scope.builtin with vars } m.order subject.text).result = .ok r) :
    m.once vars subject =
      ⟨m.emit (Log.trace subject (evaluate m.limits { Scope.builtin with vars } m.order subject.text)) ++
        [.out (r.json ++ "\n")], .returned (if r.ok then 0 else 1)⟩ := by
  have hrender : m.render r = .ok (r.json ++ "\n") := by
    rw [Manner.render, hform]
    rfl
  unfold Manner.once Manner.report
  simp only [hreport, hrender]

/-- What is not reported leaves nothing but its records. -/
theorem once_of_halt {h : Halt}
    (hhalt : Report.ofResult
      (evaluate m.limits { Scope.builtin with vars } m.order subject.text).result = .error h) :
    m.once vars subject =
      ⟨m.emit (Log.trace subject (evaluate m.limits { Scope.builtin with vars } m.order subject.text)),
        .escaped (.halt h)⟩ := by
  unfold Manner.once Manner.report
  simp only [hhalt]

/-- How a command is started leaves its standard output alone, unless the user breaks in. -/
theorem onOutput_finish (entry : Entry) {t : Transcript} (h : t.ending ≠ .escaped .interrupted) :
    (entry.finish t).onOutput = t.onOutput := by
  have hsettle : entry.settle t = t := by
    rw [Entry.settle, if_neg]
    simp [h]
  rw [Entry.finish, hsettle]
  rfl

/-- A command that evaluates one expression and writes JSON writes its report on standard output, in one
line of printable ASCII, or nothing if nothing is reported.
- With the words `NaN`, `Infinity` and `-Infinity` for numbers the line stands for the fields of the report
  and for nothing else: whether there is a value, and the value itself, or the message and the code.
- Without them it does if the value is finite or missing; else it is no JSON text. -/
theorem json_output_decodes (frames : Nat) (entry : Entry) (environment : Table String)
    (words : List String) (input : String) (ending : Manner.InputEnd)
    (hplan : (Plan.ofWords frames environment words).1 = .once m vars subject) (hform : m.form = .json) :
    (∀ r, Report.ofResult
        (evaluate m.limits { Scope.builtin with vars } m.order subject.text).result = .ok r →
      (run frames entry environment words input ending).onOutput = r.json ++ "\n" ∧
      Text.Plain r.json ∧
      (∀ d, Json.Decodes true r.json d ↔ d = r.dictionary) ∧
      ∀ d, Json.Decodes false r.json d ↔ (∀ x ∈ r.value, x.isFinite = true) ∧ d = r.dictionary) ∧
    ∀ h, Report.ofResult
        (evaluate m.limits { Scope.builtin with vars } m.order subject.text).result = .error h →
      (run frames entry environment words input ending).onOutput = "" := by
  have hrun : run frames entry environment words input ending = entry.finish (m.once vars subject) := by
    rw [run, hplan]
    rfl
  rw [hrun]
  constructor
  · intro r hreport
    refine ⟨?_, Json.plain_object r.fields, fun d => ?_, fun d => ?_⟩
    · rw [once_of_json hform hreport, onOutput_finish entry (by simp)]
      exact OneShot.onOutput_emit ..
    · rw [r.decodes_json_iff]
      simp
    · rw [r.decodes_json_iff]
      simp
  · intro h hhalt
    rw [once_of_halt hhalt, onOutput_finish entry (by simp), ← List.append_nil (m.emit _),
      OneShot.onOutput_emit_append]
    rfl

/-- A character that is no part of an expression, in an escape. -/
theorem json_output_decodes_quote :
    (run 1000 .function ∅ ["-e", "\"", "--format", "json"] "" .over).onOutput =
        (Report.failure "Unexpected character: '\"' at position 0" "UNEXPECTED_CHARACTER").json ++ "\n" ∧
      Json.Decodes false
        (Report.failure "Unexpected character: '\"' at position 0" "UNEXPECTED_CHARACTER").json
        (.object [("ok", .truth false), ("error", .text "Unexpected character: '\"' at position 0"),
          ("error_code", .text "UNEXPECTED_CHARACTER")]) := by
  have hparse : Options.parse Settings.standard ["-e", "\"", "--format", "json"] =
      .ok (.run { expression := some (.given "\""), form := .json, logLevel := .given "WARNING" }) := by
    decide +kernel
  have hsettings : Settings.ofEnvironment ∅ = .ok Settings.standard := rfl
  have hplan : (Plan.ofWords 1000 ∅ ["-e", "\"", "--format", "json"]).1 =
      .once ⟨⟨10000, 1000⟩, .fromLeft, .json, .given 12, 30⟩ ∅ (.expression "\"") := by
    rw [Plan.ofWords, hsettings]
    simp only [hparse]
    rfl
  have hreport : Report.ofResult (evaluate ⟨10000, 1000⟩ Scope.builtin .fromLeft "\"").result =
      .ok (Report.failure "Unexpected character: '\"' at position 0" "UNEXPECTED_CHARACTER") := by
    with_unfolding_all rfl
  obtain ⟨houtput, -, -, hdecodes⟩ :=
    (json_output_decodes 1000 .function ∅ _ "" .over hplan rfl).1 _ hreport
  exact ⟨houtput, (hdecodes _).2 ⟨by rintro x ⟨⟩, rfl⟩⟩

/-- The quotient by zero is an infinity, and there is no JSON text for it. -/
theorem infinite_output_is_no_json :
    (run 1000 .function ∅ ["-e", "1/0", "--format", "json"] "" .over).onOutput =
        "\x7b\"ok\": true, \"result\": Infinity\x7d\n" ∧
      ∀ d, ¬Json.Decodes false "\x7b\"ok\": true, \"result\": Infinity\x7d" d := by
  have hjson : (Report.success Binary64.infinity).json = "\x7b\"ok\": true, \"result\": Infinity\x7d" := by
    decide +kernel
  refine ⟨by decide +kernel, fun d hd => ?_⟩
  rw [← hjson, Report.decodes_json_iff] at hd
  obtain h | h := hd.1 Binary64.infinity rfl
  · cases h
  · cases h

end Reckoner.Command
