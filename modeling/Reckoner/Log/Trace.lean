import Reckoner.Log.Record
import Reckoner.Report

/-!
The records that an evaluation leaves in the log: how many tokens there were, and the result, or why
there is none.
-/

namespace Reckoner.Log

def scanned (subject : Subject) (tokens : List Token) : Record :=
  { level := Level.debug
    logger := Logger.child "lexer"
    message := "Tokenized into " ++ toString tokens.length ++ " tokens"
    subject := some subject }

def evaluated (subject : Subject) (x : Float) : Record :=
  { level := Level.debug
    logger := Logger.child "evaluator"
    message := "Evaluated to " ++ Decimal.shortestText x
    subject := some subject }

def refused (subject : Subject) (f : Fault) : Record :=
  { level := Level.debug
    logger := Logger.child "api"
    message := "Evaluation failed: " ++ f.code ++ " - " ++ f.message
    subject := some subject }

def nested (subject : Subject) : Record :=
  { level := Level.warning
    logger := Logger.child "api"
    message := "Expression nesting exceeds the interpreter recursion limit"
    subject := some subject }

def bound (name : String) (x : Float) : Record :=
  { level := Level.debug
    logger := Logger.child "cli"
    message := "Bound " ++ name ++ " = " ++ Decimal.shortestText x }

/-- The records of an evaluation, in order. -/
def trace (subject : Subject) (e : Evaluation) : List Record :=
  (e.tokens?.map (scanned subject)).toList ++
    match e.result with
    | .ok x => [evaluated subject x]
    | .error (.fault f) => [refused subject f]
    | .error .tooDeep => [nested subject]
    | .error _ => []

end Reckoner.Log
