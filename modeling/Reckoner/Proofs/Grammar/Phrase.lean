import Reckoner.Descent.Level

/-!
The grammar of expressions, apart from the reader. A phrase is a derivation tree: it has the tokens
it is written with and an outcome, which is what its calls and operators make of it from left to
right. The levels of the grammar are the reader's:

    expression := factor (("+" | "-") factor)*
    factor     := power (("*" | "/" | "%") power)*
    power      := primary ("^" primary | "!")*              (powers from the left)
                | powerRight                                (powers from the right)
    powerRight := primary "!"* ["^" powerRight]
    primary    := "-" primary | NUMBER | VARIABLE | CONSTANT
                | FUNCTION call | "(" expression ")"
    call       := "(" expression ("," expression)* ")"
-/

namespace Reckoner

/-- What may follow the first operand of a level, any number of times. -/
inductive Chain
  | sums | products | powers | factorials | arguments
  deriving DecidableEq, Repr

namespace Chain

/-- The level of the operands behind the operators of a chain. -/
abbrev operand : Chain → Level
  | .sums => .factor
  | .products => .power
  | .powers | .factorials => .primary
  | .arguments => .expression

/-- What is carried along a chain: the arguments so far, or a running value. -/
abbrev Carried : Chain → Type
  | .arguments => List Float
  | _ => Float

/-- The operators of a chain that take an operand behind them. -/
inductive Operator : Chain → Type
  | plus : Operator .sums
  | minus : Operator .sums
  | times : Operator .products
  | over : Operator .products
  | modulo : Operator .products
  | raise : Operator .powers
  | comma : Operator .arguments

/-- The operators of a chain that stand alone. -/
inductive Mark : Chain → Type
  | factorial : Mark .powers
  | factorialAlone : Mark .factorials

namespace Operator

def token {c : Chain} : c.Operator → Token
  | .plus => .op "+"
  | .minus => .op "-"
  | .times => .op "*"
  | .over => .op "/"
  | .modulo => .op "%"
  | .raise => .op "^"
  | .comma => .separator

/-- Goes on from what is carried with the value of an operand. -/
def apply [Elementary] :
    {c : Chain} → c.Operator → c.Carried → Float → Except Halt c.Carried
  | _, .plus, (x : Float), y => .ok (x + y)
  | _, .minus, (x : Float), y => .ok (x - y)
  | _, .times, (x : Float), y => .ok (x * y)
  | _, .over, (x : Float), y => Halt.raising (Arithmetic.divide x y)
  | _, .modulo, (x : Float), y => Halt.raising (Arithmetic.modulo x y)
  | _, .raise, (x : Float), y => Halt.raising (Arithmetic.power x y)
  | _, .comma, (args : List Float), y => .ok (args ++ [y])

end Operator

/-- The token of every mark. -/
def markToken : Token := .op "!"

def Mark.apply : {c : Chain} → c.Mark → c.Carried → Except Halt c.Carried
  | _, .factorial, x => Halt.raising (Arithmetic.factorial x)
  | _, .factorialAlone, x => Halt.raising (Arithmetic.factorial x)

/-- What is carried behind the first operand. -/
def start : (c : Chain) → Float → c.Carried
  | .arguments, x => [x]
  | .sums, x | .products, x | .powers, x | .factorials, x => x

/-- The step of the reader's loop over a chain. -/
def step [Elementary] : (c : Chain) → Reader Float → c.Carried → Token → Option (Reader c.Carried)
  | .sums => Level.sumStep
  | .products => Level.productStep
  | .powers => Level.powerStep
  | .factorials => fun _ => Level.factorialStep
  | .arguments => Level.argumentStep

end Chain

/-- The nonterminals: a level as a whole, or a chain without its first operand. -/
inductive Category
  | whole (level : Level)
  | links (chain : Chain)

/-- The derivation trees of the grammar. -/
inductive Phrase (order : PowerOrder) : Category → Type
  | done (c : Chain) : Phrase order (.links c)
  | link {c : Chain} (op : c.Operator) (operand : Phrase order (.whole c.operand))
      (rest : Phrase order (.links c)) : Phrase order (.links c)
  | mark {c : Chain} (m : c.Mark) (rest : Phrase order (.links c)) : Phrase order (.links c)
  | expression (first : Phrase order (.whole .factor)) (rest : Phrase order (.links .sums)) :
      Phrase order (.whole .expression)
  | factor (first : Phrase order (.whole .power)) (rest : Phrase order (.links .products)) :
      Phrase order (.whole .factor)
  | powerLeft (h : order = .fromLeft) (first : Phrase order (.whole .primary))
      (rest : Phrase order (.links .powers)) : Phrase order (.whole .power)
  | powerRight (h : order = .fromRight) (tower : Phrase order (.whole .powerRight)) :
      Phrase order (.whole .power)
  | ground (base : Phrase order (.whole .primary)) (marks : Phrase order (.links .factorials)) :
      Phrase order (.whole .powerRight)
  | raised (base : Phrase order (.whole .primary)) (marks : Phrase order (.links .factorials))
      (exponent : Phrase order (.whole .powerRight)) : Phrase order (.whole .powerRight)
  | negation (operand : Phrase order (.whole .primary)) : Phrase order (.whole .primary)
  | number (x : Float) : Phrase order (.whole .primary)
  | var (name : String) : Phrase order (.whole .primary)
  | const (name : String) : Phrase order (.whole .primary)
  | call (function : String) (args : Phrase order (.whole (.call function))) :
      Phrase order (.whole .primary)
  | group (content : Phrase order (.whole .expression)) : Phrase order (.whole .primary)
  /-- The parentheses behind a function's name, with one argument or more. -/
  | arguments (function : String) (first : Phrase order (.whole .expression))
      (rest : Phrase order (.links .arguments)) : Phrase order (.whole (.call function))

/-- What a phrase comes to: a value, or for a chain what becomes of what it is given. -/
abbrev Category.Outcome : Category → Type
  | .whole _ => Except Halt Float
  | .links c => c.Carried → Except Halt c.Carried

namespace Phrase

variable {order : PowerOrder}

/-- The tokens that a phrase is written with. -/
def tokens {category : Category} : Phrase order category → List Token
  | .done _ => []
  | .link op operand rest => op.token :: (operand.tokens ++ rest.tokens)
  | .mark _ rest => Chain.markToken :: rest.tokens
  | .expression first rest | .factor first rest | .powerLeft _ first rest =>
    first.tokens ++ rest.tokens
  | .powerRight _ tower => tower.tokens
  | .ground base marks => base.tokens ++ marks.tokens
  | .raised base marks exponent =>
    base.tokens ++ (marks.tokens ++ .op "^" :: exponent.tokens)
  | .negation operand => .op "-" :: operand.tokens
  | .number x => [.number x]
  | .var name => [.var name]
  | .const name => [.const name]
  | .call function args => .func function :: args.tokens
  | .group content => .op "(" :: (content.tokens ++ [.op ")"])
  | .arguments _ first rest => .op "(" :: (first.tokens ++ (rest.tokens ++ [.op ")"]))

/-- What a phrase comes to, its parts being evaluated from left to right up to the first failure.
All arguments of a call are evaluated before the function looks at their number or their values. -/
def outcome [Elementary] (scope : Scope) :
    {category : Category} → Phrase order category → category.Outcome
  | _, .done _ => fun a => return a
  | _, .link op operand rest => fun a => do
    let x ← operand.outcome scope
    rest.outcome scope (← op.apply a x)
  | _, .mark m rest => fun a => do rest.outcome scope (← m.apply a)
  | _, .expression first rest => do rest.outcome scope (← first.outcome scope)
  | _, .factor first rest => do rest.outcome scope (← first.outcome scope)
  | _, .powerLeft _ first rest => do rest.outcome scope (← first.outcome scope)
  | _, .powerRight _ tower => tower.outcome scope
  | _, .ground base marks => do marks.outcome scope (← base.outcome scope)
  | _, .raised base marks exponent => do
    let b ← marks.outcome scope (← base.outcome scope)
    let e ← exponent.outcome scope
    Halt.raising (Arithmetic.power b e)
  | _, .negation operand => do return -(← operand.outcome scope)
  | _, .number x => .ok x
  | _, .var name =>
    match scope.vars.get? name with
    | some x => .ok x
    | none => .error (.fault (.undefinedVariable name))
  | _, .const name =>
    match scope.constants.get? name with
    | some x => .ok x
    | none => .error (.unknownName name)
  | _, .call _ args => args.outcome scope
  | _, .group content => content.outcome scope
  | _, .arguments function first rest => do
    let args ← rest.outcome scope [← first.outcome scope]
    Builtin.callNamed function args

theorem outcome_raised [Elementary] (scope : Scope) (base : Phrase order (.whole .primary))
    (marks : Phrase order (.links .factorials)) (exponent : Phrase order (.whole .powerRight)) :
    (raised base marks exponent).outcome scope =
      base.outcome scope >>= marks.outcome scope >>= fun b =>
        exponent.outcome scope >>= fun e => Halt.raising (Arithmetic.power b e) :=
  (bind_assoc ..).symm

theorem outcome_arguments [Elementary] (scope : Scope) (function : String)
    (first : Phrase order (.whole .expression)) (rest : Phrase order (.links .arguments)) :
    (arguments function first rest).outcome scope =
      (first.outcome scope >>= fun x => rest.outcome scope [x]) >>= Builtin.callNamed function :=
  (bind_assoc ..).symm

/-- The frames that reading a phrase takes: one for each level that is active at once. -/
def frames {category : Category} : Phrase order category → Nat
  | .done _ => 0
  | .link _ operand rest => max operand.frames rest.frames
  | .mark _ rest => rest.frames
  | .expression first rest | .factor first rest | .powerLeft _ first rest =>
    max first.frames rest.frames + 1
  | .powerRight _ tower => tower.frames + 1
  | .ground base marks => max base.frames marks.frames + 1
  | .raised base marks exponent => max (max base.frames marks.frames) exponent.frames + 1
  | .negation operand => operand.frames + 1
  | .number _ | .var _ | .const _ => 1
  | .call _ args => args.frames + 1
  | .group content => content.frames + 1
  | .arguments _ first rest => max first.frames rest.frames + 1

end Phrase
end Reckoner
