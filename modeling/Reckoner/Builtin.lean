import Reckoner.Arithmetic

/-!
The functions and constants that every expression may use. Most functions handle what their parts may
fail with, and have a value for every double; six are restricted, and refuse some.
-/

namespace Reckoner

/-- Functions of one argument with a value everywhere. -/
inductive Unary
  | sin | cos | tan | abs | exp | fac | ceil | floor | sinh | cosh | tanh
  deriving DecidableEq, Repr

/-- Functions of one argument that refuse some arguments. -/
inductive Restricted
  | cosec | sec | cot | log | ln | sqrt
  deriving DecidableEq, Repr

/-- Functions of two arguments. -/
inductive Binary
  | atan2 | ncr | npr
  deriving DecidableEq, Repr

inductive Builtin
  | unary (f : Unary)
  | restricted (f : Restricted)
  | binary (f : Binary)
  deriving DecidableEq, Repr

/-- Why a restricted function has no value. -/
inductive Refusal
  /-- The argument is outside the function's domain. -/
  | outside (f : Restricted)
  /-- A part of the function has failed. -/
  | raised (failure : MathFault)
  deriving DecidableEq, Repr

namespace Unary

def name : Unary → String
  | .sin => "sin" | .cos => "cos" | .tan => "tan" | .abs => "abs" | .exp => "exp" | .fac => "fac"
  | .ceil => "ceil" | .floor => "floor" | .sinh => "sinh" | .cosh => "cosh" | .tanh => "tanh"

/-- An integer part as a double; infinities, and no number, stay. -/
def whole (part : Float → Except MathFault Int) (x : Float) : Except MathFault Float :=
  if x.isFinite then do Checked.ofInteger (← part x) else return x

/-- A circular function, which gives no number where it has no value. -/
def circular (f : Float → Except MathFault Float) (x : Float) : Except MathFault Float :=
  MathFault.handle .domain Binary64.nan (f x)

def apply [Elementary] : Unary → Float → Except MathFault Float
  | .sin, x => circular Checked.sin x
  | .cos, x => circular Checked.cos x
  | .tan, x => circular Checked.tan x
  | .abs, x => return x.abs
  | .exp, x => Arithmetic.exp x
  | .fac, x => Arithmetic.factorial x
  | .ceil, x => whole Checked.ceil x
  | .floor, x => whole Checked.floor x
  | .sinh, x => Arithmetic.sinh x
  | .cosh, x => Arithmetic.cosh x
  | .tanh, x => Arithmetic.tanh x

end Unary

namespace Restricted

def name : Restricted → String
  | .cosec => "cosec" | .sec => "sec" | .cot => "cot" | .log => "log" | .ln => "ln" | .sqrt => "sqrt"

/-- The arguments that the function refuses, as they are put into words. -/
def hole : Restricted → String
  | .cosec | .cot => "x = 0"
  | .sec => "x = ±pi/2"
  | .log | .ln => "x <= 0"
  | .sqrt => "x < 0"

/-- Whether the function refuses `x`. -/
def refuses : Restricted → Float → Bool
  | .cosec, x | .cot, x => x == 0
  | .sec, x => x == Binary64.pi / 2 || x == -Binary64.pi / 2
  | .log, x | .ln, x => x ≤ 0
  | .sqrt, x => x < 0

/-- What the function computes where it does not refuse. The reciprocals of the circular functions
handle no failure of these. -/
def compute [Elementary] : Restricted → Float → Except MathFault Float
  | .cosec, x => do Arithmetic.divide 1 (← Checked.sin x)
  | .sec, x => do Arithmetic.divide 1 (← Checked.cos x)
  | .cot, x => do Arithmetic.divide 1 (← Checked.tan x)
  | .log, x => Checked.log10 x
  | .ln, x => Checked.log x
  | .sqrt, x => Checked.sqrt x

def apply [Elementary] (f : Restricted) (x : Float) : Except Refusal Float :=
  if f.refuses x then throw (.outside f) else (f.compute x).mapError .raised

end Restricted

namespace Binary

def name : Binary → String
  | .atan2 => "atan2" | .ncr => "ncr" | .npr => "npr"

def apply [Elementary] : Binary → Float → Float → Except MathFault Float
  | .atan2, y, x => return Elementary.atan2 y x
  | .ncr, n, r => Arithmetic.combinations n r
  | .npr, n, r => Arithmetic.permutations n r

end Binary

namespace Builtin

def name : Builtin → String
  | .unary f => f.name
  | .restricted f => f.name
  | .binary f => f.name

def arity : Builtin → Nat
  | .unary _ | .restricted _ => 1
  | .binary _ => 2

def all : List Builtin :=
  [.unary .sin, .unary .cos, .unary .tan, .restricted .cosec, .restricted .sec, .restricted .cot,
    .restricted .log, .restricted .ln, .restricted .sqrt, .unary .abs, .unary .exp, .unary .fac,
    .unary .ceil, .unary .floor, .unary .sinh, .unary .cosh, .unary .tanh, .binary .atan2,
    .binary .ncr, .binary .npr]

theorem mem_all (f : Builtin) : f ∈ all := by
  cases f <;> rename_i g <;> cases g <;> decide

def ofName? (name : String) : Option Builtin := all.find? fun f => f.name = name

@[simp] theorem ofName?_name (f : Builtin) : ofName? f.name = some f := by
  cases f <;> rename_i g <;> cases g <;> decide

end Builtin

/-- The constants known from the start. -/
def builtinConstants : List (String × Float) := [("pi", Binary64.pi), ("e", Binary64.e)]

end Reckoner
