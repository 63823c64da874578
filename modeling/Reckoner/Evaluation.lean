import Reckoner.Descent.Level
import Reckoner.Token.Scan

/-!
Evaluating an expression: its text is scanned to the end, then read in one pass. Nothing but the
text, the order of powers and the scope has a say in the result.
-/

namespace Reckoner

/-- How much an evaluation may take. -/
structure Limits where
  /-- The most characters of an expression. -/
  length : Int
  /-- The most levels that may be active at once. -/
  frames : Nat
  deriving DecidableEq, Repr

/-- The frames that are left to an evaluation where nothing else takes any. -/
def frameLimit : Nat := 1000

/-- What an evaluation has come to. -/
structure Evaluation where
  /-- The tokens of the expression, if it could be scanned. -/
  tokens? : Option (List Token)
  /-- How many of them were consumed. -/
  cursor : Nat
  result : Except Halt Float

variable [Elementary]

/-- Evaluates an expression within limits. -/
def evaluate (limits : Limits) (scope : Scope) (order : PowerOrder) (expression : String) :
    Evaluation :=
  match Token.scan scope limits.length expression with
  | .error fault => ⟨none, 0, .error (.fault fault)⟩
  | .ok tokens =>
    let reading := (wholeExpression scope order limits.frames).start tokens
    ⟨some tokens, reading.cursor, reading.result⟩

/-- Why an evaluation with values for variables gives no result. -/
inductive Failure
  | value (fault : ValueFault)
  | halt (cause : Halt)
  deriving DecidableEq

/-- Evaluates an expression with the given values bound to their names. -/
def evaluateWith (limits : Limits) (values : Table Value) (order : PowerOrder)
    (expression : String) : Except Failure Float :=
  match Scope.builtin.add values with
  | (_, some fault) => throw (.value fault)
  | (scope, none) => (evaluate limits scope order expression).result.mapError .halt

end Reckoner
