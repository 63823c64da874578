import Reckoner.Evaluation

/-!
Reports: the result of an evaluation as plain data, a value or a message with its code. The faults of
an expression and too deep a nesting are reported; all else stays a failure.
-/

namespace Reckoner

structure Report where
  ok : Bool
  value : Option Float := none
  message : Option String := none
  code : Option String := none
  deriving DecidableEq

/-- A field of a report. -/
inductive Field
  | truth (b : Bool)
  | number (x : Float)
  | text (s : String)
  deriving DecidableEq

namespace Report

def success (x : Float) : Report := { ok := true, value := some x }

def failure (message code : String) : Report :=
  { ok := false, message := some message, code := some code }

/-- The report of a halt, if it is one that is reported. -/
def ofHalt? : Halt → Option Report
  | .fault f => some (failure f.message f.code)
  | .tooDeep => some (failure Halt.tooDeep.message "TOO_DEEP")
  | .pastEnd | .unknownName _ | .raised _ => none

def ofResult : Except Halt Float → Except Halt Report
  | .ok x => return success x
  | .error h =>
    match ofHalt? h with
    | some report => return report
    | none => throw h

/-- The fields that are there, by name. -/
def fields (r : Report) : List (String × Field) :=
  ("ok", .truth r.ok) :: (r.value.map fun x => ("result", .number x)).toList
    ++ (r.message.map fun s => ("error", .text s)).toList
    ++ (r.code.map fun s => ("error_code", .text s)).toList

/-- A part of a report that may be missing. -/
def part {α : Type} (write : α → String) : Option α → String
  | some a => write a
  | none => "None"

def exact (r : Report) : String :=
  if r.ok then "EvalResult(ok=True, result=" ++ part Decimal.shortestText r.value ++ ")"
  else
    "EvalResult(ok=False, error=" ++ part Text.quote r.message ++ ", error_code="
      ++ part Text.quote r.code ++ ")"

end Report

/-- Evaluates an expression and reports what came of it. -/
def reportWith [Elementary] (limits : Limits) (values : Table Value) (order : PowerOrder)
    (expression : String) : Except Failure Report :=
  match evaluateWith limits values order expression with
  | .error (.value fault) => throw (.value fault)
  | .error (.halt h) => (Report.ofResult (.error h)).mapError .halt
  | .ok x => (Report.ofResult (.ok x)).mapError .halt

end Reckoner
