import Reckoner.Command.Plan
import Reckoner.Proofs.Command.Lines
import Reckoner.Proofs.Json.Text
import Reckoner.Proofs.Log.Record

/-!
What commands write is written line by line. Whatever characters an expression or a binding holds, a
result, an error and a log record are one line each, so that none of them can be made up in an input.
-/

namespace Reckoner

open Text (OneLine)

/-- The message of a report is within one line. -/
theorem oneLine_of_report {limits : Limits} {scope : Scope} {order : PowerOrder} {text : String}
    {r : Report} (h : Report.ofResult (evaluate limits scope order text).result = .ok r)
    {message : String} (hmessage : r.message = some message) : OneLine message := by
  have hworded : ∀ fault, (evaluate limits scope order text).result = .error (.fault fault) →
      OneLine fault.message := fun fault => oneLine_of_evaluate
  generalize (evaluate limits scope order text).result = result at h hworded
  cases result with
  | ok x =>
    obtain rfl := Except.ok.inj h
    cases hmessage
  | error cause =>
    cases cause with
    | fault f =>
      obtain rfl := Except.ok.inj h
      obtain rfl := Option.some.inj hmessage
      exact hworded f rfl
    | tooDeep =>
      obtain rfl := Except.ok.inj h
      obtain rfl := Option.some.inj hmessage
      decide
    | pastEnd | unknownName | raised => cases h

theorem BindingFault.oneLine_message {text : String} {fault : BindingFault}
    (h : Binding.parse text = .error fault) : OneLine fault.message := by
  rcases Binding.parse_cases text with ⟨_, _, _, -, -, -, -, hparse⟩ | hparse | ⟨_, _, -, -, hparse⟩
  · cases hparse.symm.trans h
  · obtain rfl := Except.error.inj (hparse.symm.trans h)
    have hfront : OneLine ("Invalid variable binding: " ++ Text.quote text) :=
      Text.oneLine_append.2 ⟨by decide, Text.oneLine_quote text⟩
    exact Text.oneLine_append.2 ⟨hfront, by decide⟩
  · obtain rfl := Except.error.inj (hparse.symm.trans h)
    exact Text.oneLine_append.2 ⟨by decide, Text.oneLine_quote _⟩

namespace Command

/-- Whether a thing written is one line, with a line feed behind it that the log adds itself. -/
def Output.IsLine (timestamp : String) : Output → Prop
  | .out s | .err s => ∃ line, s = line ++ "\n" ∧ OneLine line
  | .log r => OneLine (r.write timestamp)

namespace Manner

variable {m : Manner} {vars : Table Float} {timestamp : String}

theorem isLine_of_mem_emit (ht : OneLine timestamp) {records : List Log.Record}
    (h : ∀ r ∈ records, r.Clean) : ∀ o ∈ m.emit records, o.IsLine timestamp := by
  intro o ho
  obtain ⟨r, hr, rfl⟩ := List.mem_map.1 ho
  exact (h r (List.mem_filter.1 hr).1).oneLine_write ht

theorem oneLine_display {x : Float} {text : String} (h : m.display x = .ok text) : OneLine text := by
  have hshown : ∀ p, (displayFloat p x).mapError Escape.precision = .ok text → OneLine text := by
    intro p hp
    cases hdisplay : displayFloat p x with
    | error fault =>
      rw [hdisplay] at hp
      cases hp
    | ok shown =>
      rw [hdisplay] at hp
      obtain rfl := Except.ok.inj hp
      exact (plain_displayFloat hdisplay).oneLine
  unfold display at h
  split at h
  · exact hshown _ h
  · split at h
    · cases h
    · exact hshown 0 h

/-- A report is rendered on one line if its message is within one. -/
theorem isLine_of_render {r : Report} (hmessage : ∀ message, r.message = some message → OneLine message)
    {text : String} (h : m.render r = .ok text) : (Output.out text).IsLine timestamp := by
  unfold render at h
  split at h
  · obtain rfl := Except.ok.inj h
    exact ⟨r.json, rfl, (Json.plain_object r.fields).oneLine⟩
  · split at h
    · split at h
      · rename_i x _
        cases hdisplay : m.display x with
        | error cause =>
          rw [hdisplay] at h
          cases h
        | ok shown =>
          rw [hdisplay] at h
          obtain rfl := Except.ok.inj h
          exact ⟨shown, rfl, oneLine_display hdisplay⟩
      · obtain rfl := Except.ok.inj h
        exact ⟨"None", rfl, by decide⟩
    · obtain rfl := Except.ok.inj h
      refine ⟨"Error: " ++ Report.part id r.message, rfl, Text.oneLine_append.2 ⟨by decide, ?_⟩⟩
      cases hpart : r.message with
      | none => decide
      | some message => exact hmessage message hpart

/-- The records of an evaluation are lines. -/
theorem isLine_of_report (ht : OneLine timestamp) (subject : Log.Subject) :
    ∀ o ∈ (m.report vars subject).1, o.IsLine timestamp :=
  isLine_of_mem_emit ht fun _ hr => (Log.clean_of_mem_trace hr).1

theorem isLine_of_once (ht : OneLine timestamp) (subject : Log.Subject) :
    ∀ o ∈ (m.once vars subject).outputs, o.IsLine timestamp := by
  have hrecords : ∀ o ∈ (m.report vars subject).1, o.IsLine timestamp := isLine_of_report ht subject
  unfold once
  cases hreport : m.report vars subject with
  | mk records result =>
    rw [hreport] at hrecords
    cases result with
    | error h => exact hrecords
    | ok r =>
      have hmessage : ∀ message, r.message = some message → OneLine message := fun message =>
        oneLine_of_report (congrArg Prod.snd hreport)
      cases hrender : m.render r with
      | error cause =>
        simp only [hrender]
        exact hrecords
      | ok text =>
        simp only [hrender]
        rw [List.forall_mem_append]
        exact ⟨hrecords, by simpa using isLine_of_render hmessage hrender⟩

/-- What is kept is logged under an identifier. -/
theorem isLine_of_keep (ht : OneLine timestamp) {target : Option String}
    (htarget : ∀ name, target = some name → OneLine name) (r : Report) :
    ∀ o ∈ (m.keep vars target r).2, o.IsLine timestamp := by
  unfold keep
  split
  · refine isLine_of_mem_emit ht fun record hrecord => ?_
    rw [List.mem_singleton.1 hrecord]
    exact Log.clean_bound (htarget _ rfl) _
  · exact List.forall_mem_nil _

theorem isLine_of_answer (ht : OneLine timestamp) (line : String) :
    ∀ o ∈ (m.answer vars line).1, o.IsLine timestamp := by
  have htarget : ∀ name, (assignment line).1 = some name → OneLine name := by
    intro name hname
    unfold assignment at hname
    split at hname
    · rename_i name' rest hsplit
      obtain rfl := Option.some.inj hname
      exact Text.Plain.oneLine (Text.isPlain_of_isName (isName_of_split? hsplit).1)
    · cases hname
  unfold answer
  cases hassignment : assignment line with
  | mk target expression =>
    rw [hassignment] at htarget
    have hrecords : ∀ o ∈ (m.report vars (.expression expression)).1, o.IsLine timestamp :=
      isLine_of_report ht (.expression expression)
    cases hreport : m.report vars (.expression expression) with
    | mk records result =>
      rw [hreport] at hrecords
      cases result with
      | error h =>
        simp only [hreport]
        exact hrecords
      | ok r =>
        have hmessage : ∀ message, r.message = some message → OneLine message := fun message =>
          oneLine_of_report (congrArg Prod.snd hreport)
        have hnote : ∀ o ∈ (m.keep vars target r).2, o.IsLine timestamp := isLine_of_keep ht htarget r
        simp only [hreport]
        cases hrender : m.render r with
        | error cause =>
          dsimp only
          rw [List.forall_mem_append]
          exact ⟨hrecords, hnote⟩
        | ok text =>
          dsimp only
          rw [List.forall_mem_append, List.forall_mem_append]
          exact ⟨⟨hrecords, hnote⟩, by simpa using isLine_of_render hmessage hrender⟩

/-- One line of input is answered line by line. -/
theorem isLine_of_step (ht : OneLine timestamp) (line : String) :
    ∀ o ∈ (m.step vars line).1, o.IsLine timestamp := by
  unfold step
  simp only
  split
  · exact List.forall_mem_nil _
  · split
    · exact List.forall_mem_nil _
    · exact isLine_of_answer ht _

/-- A whole run writes lines, and its prompts. -/
theorem isLine_of_interact (ht : OneLine timestamp) (ending : InputEnd) (vars : Table Float)
    (lines : List String) :
    ∀ o ∈ (m.interact ending vars lines).outputs, o = .out prompt ∨ o.IsLine timestamp := by
  have hreply {vars : Table Float} {line : String} {outputs : List Output} {next : Next}
      (h : m.step vars line = (outputs, next)) :
      ∀ o ∈ Output.out prompt :: outputs, o = .out prompt ∨ o.IsLine timestamp := by
    have hlines : ∀ o ∈ (m.step vars line).1, o.IsLine timestamp := isLine_of_step ht line
    rw [h] at hlines
    exact List.forall_mem_cons.2 ⟨.inl rfl, fun o ho => .inr (hlines o ho)⟩
  induction lines generalizing vars with
  | nil =>
    have hend : (Output.out "\n").IsLine timestamp := ⟨"", rfl, by decide⟩
    match ending with
    | .over => exact List.forall_mem_cons.2 ⟨.inl rfl, List.forall_mem_singleton.2 (.inr hend)⟩
    | .interrupted => exact List.forall_mem_singleton.2 (.inl rfl)
  | cons line lines ih =>
    unfold interact
    cases hstep : m.step vars line with
    | mk outputs next =>
      cases next with
      | go vars =>
        simp only [Transcript.after]
        rw [List.forall_mem_append]
        exact ⟨hreply hstep, ih vars⟩
      | leave => exact hreply hstep
      | escape cause => exact hreply hstep

end Manner

/-- No input makes up a line of output or of the log, whatever its characters.
- An evaluation leaves records that are one line each and show the expression, or its first 77
  characters and three dots if it has more than 80; and the message of its report is within one line.
- A text that is no binding is refused with one line.
- A command that evaluates one expression writes lines, and so does one that goes on line by line, but
  for its prompts. -/
theorem outputs_are_lines (stamp : Log.Timestamp) :
    (∀ (limits : Limits) (scope : Scope) (order : PowerOrder) (text : String),
      (∀ r ∈ Log.trace (.expression text) (evaluate limits scope order text),
        OneLine (r.write stamp.text) ∧
        ∃ front quoted, r.write stamp.text = front ++ " (expression=" ++ quoted ++ ")" ∧
          Text.unquote? quoted =
            some (if text.length ≤ 80 then text else String.ofList (text.toList.take 77) ++ "...")) ∧
      ∀ r message, Report.ofResult (evaluate limits scope order text).result = .ok r →
        r.message = some message → OneLine ("Error: " ++ message)) ∧
    (∀ text fault, Binding.parse text = .error fault →
      ∀ o ∈ (Options.refuse fault).outputs, o.IsLine stamp.text) ∧
    (∀ (m : Manner) (vars : Table Float) (subject : Log.Subject),
      ∀ o ∈ (m.once vars subject).outputs, o.IsLine stamp.text) ∧
    ∀ (m : Manner) (ending : Manner.InputEnd) (vars : Table Float) (lines : List String),
      ∀ o ∈ (m.interact ending vars lines).outputs, o = .out Manner.prompt ∨ o.IsLine stamp.text := by
  have ht := stamp.plain_text.oneLine
  refine ⟨fun limits scope order text => ⟨fun r hr => ?_, fun r message hreport hmessage => ?_⟩,
    fun text fault hfault => ?_, fun m vars subject => Manner.isLine_of_once ht subject,
    fun m ending vars lines => Manner.isLine_of_interact ht ending vars lines⟩
  · obtain ⟨hclean, hsubject⟩ := Log.clean_of_mem_trace hr
    exact ⟨hclean.oneLine_write ht, Log.Record.write_eq_of_subject hsubject hclean.carried _⟩
  · exact Text.oneLine_append.2 ⟨by decide, oneLine_of_report hreport hmessage⟩
  · have hline : OneLine ("Error: " ++ fault.message) :=
      Text.oneLine_append.2 ⟨by decide, BindingFault.oneLine_message hfault⟩
    exact List.forall_mem_singleton.2 ⟨_, rfl, hline⟩

/-- An expression and a binding that hold a line which looks like an answer. -/
theorem outputs_are_lines_feigned_answer :
    (Log.refused (.expression "$\n2") (.unexpectedCharacter '$' 0) ∈
        Log.trace (.expression "$\n2") (evaluate ⟨10000, 1000⟩ Scope.builtin .fromLeft "$\n2") ∧
      OneLine ((Log.refused (.expression "$\n2") (.unexpectedCharacter '$' 0)).write
        (⟨0, 0⟩ : Log.Timestamp).text)) ∧
    (Report.ofResult (evaluate ⟨10000, 1000⟩ Scope.builtin .fromLeft "$\n2").result =
        .ok (Report.failure "Unexpected character: '$' at position 0" "UNEXPECTED_CHARACTER") ∧
      OneLine ("Error: " ++ "Unexpected character: '$' at position 0")) ∧
    Binding.parse "2 x\nError: =1" = .error (.malformed "2 x\nError: =1") ∧
      ∀ o ∈ (Options.refuse (.malformed "2 x\nError: =1")).outputs,
        o.IsLine (⟨0, 0⟩ : Log.Timestamp).text := by
  obtain ⟨hevaluation, hbinding, -⟩ := outputs_are_lines ⟨0, 0⟩
  obtain ⟨hrecords, hmessage⟩ := hevaluation ⟨10000, 1000⟩ Scope.builtin .fromLeft "$\n2"
  have hrecord : Log.refused (.expression "$\n2") (.unexpectedCharacter '$' 0) ∈
      Log.trace (.expression "$\n2") (evaluate ⟨10000, 1000⟩ Scope.builtin .fromLeft "$\n2") := by
    have htrace : Log.trace (.expression "$\n2") (evaluate ⟨10000, 1000⟩ Scope.builtin .fromLeft "$\n2") =
      [Log.refused (.expression "$\n2") (.unexpectedCharacter '$' 0)] := by with_unfolding_all rfl
    rw [htrace]
    exact List.mem_singleton_self _
  have hreport : Report.ofResult (evaluate ⟨10000, 1000⟩ Scope.builtin .fromLeft "$\n2").result =
      .ok (Report.failure "Unexpected character: '$' at position 0" "UNEXPECTED_CHARACTER") := by
    with_unfolding_all rfl
  have hparse : Binding.parse "2 x\nError: =1" = .error (.malformed "2 x\nError: =1") := by
    with_unfolding_all rfl
  exact ⟨⟨hrecord, (hrecords _ hrecord).1⟩, ⟨hreport, hmessage _ _ hreport rfl⟩, hparse,
    hbinding _ _ hparse⟩

end Command
end Reckoner
