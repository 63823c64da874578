import Reckoner.Proofs.Grammar.Follow

/-!
The levels of the reader, each as an equation in terms of the levels below it.
-/

namespace Reckoner

theorem Reader.compute_ok {α : Type} (a : α) : Reader.compute (.ok a) = pure a := rfl

variable [Elementary]

/-- A reader of operands with a chain behind the first. -/
def Chain.reader (c : Chain) (operand : Reader Float) : Reader c.Carried := do
  Reader.loop (c.step operand) (c.start (← operand))

namespace Level

variable (scope : Scope) (order : PowerOrder) (frames : Nat)

theorem read_zero (level : Level) : read scope order 0 level = Reader.fail .tooDeep := by
  cases level <;> rfl

theorem read_expression :
    read scope order (frames + 1) .expression =
      Chain.sums.reader (read scope order frames .factor) := rfl

theorem read_factor :
    read scope order (frames + 1) .factor =
      Chain.products.reader (read scope order frames .power) := rfl

theorem read_power_fromLeft (h : order = .fromLeft) :
    read scope order (frames + 1) .power =
      Chain.powers.reader (read scope order frames .primary) := by
  subst h
  rfl

theorem read_power_fromRight (h : order = .fromRight) :
    read scope order (frames + 1) .power = read scope order frames .powerRight := by
  subst h
  rfl

/-- What may follow a base and its factorials: the exponent. -/
def exponent (tower : Reader Float) (base : Float) : Reader Float := do
  if (← Reader.ahead).isOp "^" then
    Reader.skip
    Reader.compute (Arithmetic.power base (← tower))
  else return base

theorem read_powerRight :
    read scope order (frames + 1) .powerRight =
      Chain.factorials.reader (read scope order frames .primary) >>=
        exponent (read scope order frames .powerRight) := by
  rw [Chain.reader, bind_assoc]
  rfl

/-- A primary, once the token ahead of it is known. -/
def primaryAt (below : Level → Reader Float) : Token → Reader Float
  | .op "-" => do
    Reader.skip
    return -(← below .primary)
  | .op "(" => do
    Reader.skip
    let x ← below .expression
    Reader.expect ")" .unclosed
    return x
  | .number x => do
    Reader.skip
    return x
  | .var name =>
    match scope.vars.get? name with
    | some x => do
      Reader.skip
      return x
    | none => Reader.fail (.fault (.undefinedVariable name))
  | .const name => do
    Reader.skip
    match scope.constants.get? name with
    | some x => return x
    | none => Reader.fail (.unknownName name)
  | .func name => do
    Reader.skip
    below (.call name)
  | token => Reader.fail (.fault (.unexpectedToken token))

theorem read_primary :
    read scope order (frames + 1) .primary =
      Reader.ahead >>= primaryAt scope (read scope order frames) := rfl

/-- A call, once the name has been read. -/
theorem read_call (name : String) :
    read scope order (frames + 1) (.call name) = (do
      Reader.expect "(" (.unopened name)
      let args ← Chain.arguments.reader (read scope order frames .expression)
      Reader.expect ")" .unclosed
      Reader.ofExcept (Builtin.callNamed name args)) := by
  simp only [Chain.reader, bind_assoc]
  rfl

end Level
end Reckoner
