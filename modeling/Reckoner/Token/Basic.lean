import Reckoner.Decimal.Shortest
import Reckoner.Text.Quoted

/-!
The tokens of an expression, and the two ways one is written: a plain description for messages and
an exact one that quotes its payload.
-/

namespace Reckoner

inductive Token
  | number (value : Float)
  | var (name : String)
  | op (symbol : String)
  | func (name : String)
  | const (name : String)
  | separator
  | ending
  /-- Stands for no lexeme; it is never scanned from a text. -/
  | invalid
  deriving DecidableEq

namespace Token

def kind : Token → String
  | .number _ => "number"
  | .var _ => "variable"
  | .op _ => "operator"
  | .func _ => "function"
  | .const _ => "constant"
  | .separator => "separator"
  | .ending => "end"
  | .invalid => "error"

def describe (t : Token) : String :=
  let payload :=
    match t with
    | .number x => ", value: " ++ Decimal.shortestText x
    | .var n | .func n | .const n => ", name: " ++ n
    | .op s => ", operator: " ++ s
    | .separator | .ending | .invalid => ""
  "Token(" ++ t.kind ++ payload ++ ")"

def exact : Token → String
  | .number x => "NumberToken(value=" ++ Decimal.shortestText x ++ ")"
  | .var n => "VariableToken(name=" ++ Text.quote n ++ ")"
  | .op s => "OperatorToken(symbol=" ++ Text.quote s ++ ")"
  | .func n => "FunctionToken(name=" ++ Text.quote n ++ ")"
  | .const n => "ConstantToken(name=" ++ Text.quote n ++ ")"
  | .separator => "SeparatorToken()"
  | .ending => "EndToken()"
  | .invalid => "ErrorToken()"

/-- Equality with numbers compared as numbers: the zeros are alike, and no number is not alike even
to itself. -/
def alike : Token → Token → Bool
  | .number x, .number y => x == y
  | a, b => a = b

def isOp (t : Token) (symbol : String) : Bool := t = .op symbol

end Token
end Reckoner
