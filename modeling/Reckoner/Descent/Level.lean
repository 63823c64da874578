import Reckoner.Descent.Reader
import Reckoner.Scope

/-!
Reading and evaluating at once, level by level. Sums are made of products, products of powers,
powers of primaries; a primary is a number, a name, a call, a negated primary, or an expression in
parentheses. Each level that is active takes one frame, and the frames are limited.
-/

namespace Reckoner

variable [Elementary]

namespace Builtin

/-- Calls a function with a list of arguments, of which it takes as many as it needs from the front. -/
def call (f : Builtin) (args : List Float) : Except Halt Float :=
  match f, args with
  | .unary g, x :: _ => Halt.raising (g.apply x)
  | .restricted g, x :: _ => (g.apply x).mapError Halt.ofRefusal
  | .binary g, x :: y :: _ => Halt.raising (g.apply x y)
  | f, args => throw (.fault (.missingArguments f.name f.arity args.length))

/-- Calls the function of a given name. -/
def callNamed (name : String) (args : List Float) : Except Halt Float :=
  match ofName? name with
  | some f => f.call args
  | none => throw (.unknownName name)

end Builtin

/-- Which of two powers in a row is raised first. -/
inductive PowerOrder
  | fromLeft | fromRight
  deriving DecidableEq, Repr

inductive Level
  | expression
  | factor
  | power
  /-- A power that takes everything after its `^` as the exponent. -/
  | powerRight
  | primary
  /-- The arguments of a function, after its name. -/
  | call (function : String)
  deriving DecidableEq, Repr

namespace Level

def sumStep (operand : Reader Float) (total : Float) : Token → Option (Reader Float)
  | .op "+" => some do return total + (← operand)
  | .op "-" => some do return total - (← operand)
  | _ => none

def productStep (operand : Reader Float) (total : Float) : Token → Option (Reader Float)
  | .op "*" => some do return total * (← operand)
  | .op "/" => some do Reader.compute (Arithmetic.divide total (← operand))
  | .op "%" => some do Reader.compute (Arithmetic.modulo total (← operand))
  | _ => none

def powerStep (operand : Reader Float) (base : Float) : Token → Option (Reader Float)
  | .op "^" => some do Reader.compute (Arithmetic.power base (← operand))
  | .op "!" => some (Reader.compute (Arithmetic.factorial base))
  | _ => none

def factorialStep (x : Float) : Token → Option (Reader Float)
  | .op "!" => some (Reader.compute (Arithmetic.factorial x))
  | _ => none

def argumentStep (operand : Reader Float) (args : List Float) : Token → Option (Reader (List Float))
  | .separator => some do return args ++ [← operand]
  | _ => none

/-- The reader of a level with a number of frames left. -/
def read (scope : Scope) (order : PowerOrder) : Nat → Level → Reader Float
  | 0, _ => Reader.fail .tooDeep
  | frames + 1, .expression => do
    let operand := read scope order frames .factor
    Reader.loop (sumStep operand) (← operand)
  | frames + 1, .factor => do
    let operand := read scope order frames .power
    Reader.loop (productStep operand) (← operand)
  | frames + 1, .power =>
    match order with
    | .fromLeft => do
      let operand := read scope order frames .primary
      Reader.loop (powerStep operand) (← operand)
    | .fromRight => read scope order frames .powerRight
  | frames + 1, .powerRight => do
    let base ← Reader.loop factorialStep (← read scope order frames .primary)
    if (← Reader.ahead).isOp "^" then
      Reader.skip
      Reader.compute (Arithmetic.power base (← read scope order frames .powerRight))
    else return base
  | frames + 1, .primary => do
    match ← Reader.ahead with
    | .op "-" =>
      Reader.skip
      return -(← read scope order frames .primary)
    | .op "(" =>
      Reader.skip
      let x ← read scope order frames .expression
      Reader.expect ")" .unclosed
      return x
    | .number x =>
      Reader.skip
      return x
    | .var name =>
      match scope.vars.get? name with
      | some x =>
        Reader.skip
        return x
      | none => Reader.fail (.fault (.undefinedVariable name))
    | .const name =>
      Reader.skip
      match scope.constants.get? name with
      | some x => return x
      | none => Reader.fail (.unknownName name)
    | .func name =>
      Reader.skip
      read scope order frames (.call name)
    | token => Reader.fail (.fault (.unexpectedToken token))
  | frames + 1, .call name => do
    Reader.expect "(" (.unopened name)
    let operand := read scope order frames .expression
    let args ← Reader.loop (argumentStep operand) [← operand]
    Reader.expect ")" .unclosed
    Reader.ofExcept (Builtin.callNamed name args)

end Level

/-- What came of reading a list of tokens, and how many of them were consumed. -/
structure Reading where
  result : Except Halt Float
  cursor : Nat

namespace Reader

def start (r : Reader Float) (tokens : List Token) : Reading :=
  let reply := r.run tokens
  ⟨reply.result, tokens.length - reply.rest.length⟩

end Reader

/-- Reads one phrase of a level off the front of the tokens. -/
def Level.phrase (level : Level) (scope : Scope) (order : PowerOrder) (frames : Nat)
    (tokens : List Token) : Reading :=
  (level.read scope order frames).start tokens

/-- An expression with nothing after it. -/
def wholeExpression (scope : Scope) (order : PowerOrder) (frames : Nat) : Reader Float := do
  let x ← Level.expression.read scope order frames
  match ← Reader.ahead with
  | .ending => return x
  | token => Reader.fail (.fault (.trailingToken token))

end Reckoner
