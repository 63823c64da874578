import Reckoner.Binding
import Reckoner.Command.Transcript
import Reckoner.Json
import Reckoner.Log.Trace

/-!
How expressions are evaluated and shown on the command line, once or line by line. On a line
`NAME = EXPRESSION` the value is kept under the name for the lines that follow.
-/

namespace Reckoner.Command

structure Manner where
  limits : Limits
  order : PowerOrder
  form : Form
  precision : Argument Int
  /-- Records below this level are not written. -/
  threshold : Int
  deriving DecidableEq, Repr

/-- What follows after a line. -/
inductive Next
  | go (vars : Table Float)
  | leave
  | escape (cause : Escape)

namespace Manner

/-- The records that reach the log. -/
def emit (m : Manner) (records : List Log.Record) : List Output :=
  (records.filter fun r => m.threshold ≤ r.level).map .log

/-- A value as it is shown; an infinity and no number are shown whatever the precision. -/
def display (m : Manner) (x : Float) : Except Escape String :=
  match m.precision with
  | .given p => (displayFloat p x).mapError .precision
  | .nothing =>
    if x.isFinite then throw (.noArgument .precision) else (displayFloat 0 x).mapError .precision

/-- A report as a line of output. -/
def render (m : Manner) (r : Report) : Except Escape String :=
  match m.form with
  | .json => return r.json ++ "\n"
  | .human =>
    if r.ok then
      match r.value with
      | some x => return (← m.display x) ++ "\n"
      | none => return Report.part id none ++ "\n"
    else return "Error: " ++ Report.part id r.message ++ "\n"

/-- The records and the report of an evaluation. -/
def report (m : Manner) (vars : Table Float) (subject : Log.Subject) :
    List Output × Except Halt Report :=
  let evaluation := evaluate m.limits { Scope.builtin with vars } m.order subject.text
  (m.emit (Log.trace subject evaluation), Report.ofResult evaluation.result)

/-- Evaluates one expression; the code tells whether it has a value. -/
def once (m : Manner) (vars : Table Float) (subject : Log.Subject) : Transcript :=
  let (records, result) := m.report vars subject
  match result with
  | .error h => ⟨records, .escaped (.halt h)⟩
  | .ok r =>
    match m.render r with
    | .ok text => ⟨records ++ [.out text], .returned (if r.ok then 0 else 1)⟩
    | .error cause => ⟨records, .escaped cause⟩

/-! ### Line by line -/

def prompt : String := ">>> "

/-- The words that end an interactive run, in capitals or not. -/
def exitWords : List String := ["quit", "exit"]

/-- The name that a line gives its value to, if any, and its expression. -/
def assignment (line : String) : Option String × String :=
  match Binding.split? line with
  | some (name, rest) => (some name, rest)
  | none => (none, line)

/-- Keeps a value that a line has given a name to. -/
def keep (m : Manner) (vars : Table Float) (target : Option String) (r : Report) :
    Table Float × List Output :=
  match r.ok, target, r.value with
  | true, some name, some x => (vars.insert name x, m.emit [Log.bound name x])
  | _, _, _ => (vars, [])

/-- Evaluates the expression of a line and shows the result. -/
def answer (m : Manner) (vars : Table Float) (line : String) : List Output × Next :=
  let (target, expression) := assignment line
  let (records, result) := m.report vars (.expression expression)
  match result with
  | .error h => (records, .escape (.halt h))
  | .ok r =>
    let (vars, note) := m.keep vars target r
    match m.render r with
    | .ok text => (records ++ note ++ [.out text], .go vars)
    | .error cause => (records ++ note, .escape cause)

/-- One line of an interactive run; blank lines do nothing. -/
def step (m : Manner) (vars : Table Float) (line : String) : List Output × Next :=
  let line := Text.trim line
  if line = "" then ([], .go vars)
  else if exitWords.contains (Text.lower line) then ([], .leave)
  else m.answer vars line

/-- How the input of an interactive run ends. -/
inductive InputEnd
  | over
  | interrupted
  deriving DecidableEq, Repr

/-- The last prompt, with no line behind it. -/
def close : InputEnd → Transcript
  | .over => ⟨[.out prompt, .out "\n"], .returned 0⟩
  | .interrupted => ⟨[.out prompt], .escaped .interrupted⟩

/-- An interactive run over the lines of its input. -/
def interact (m : Manner) (ending : InputEnd) (vars : Table Float) :
    List String → Transcript
  | [] => close ending
  | line :: lines =>
    let (outputs, next) := m.step vars line
    match next with
    | .go vars => (m.interact ending vars lines).after (.out prompt :: outputs)
    | .leave => ⟨.out prompt :: outputs, .returned 0⟩
    | .escape cause => ⟨.out prompt :: outputs, .escaped cause⟩

end Manner
end Reckoner.Command
