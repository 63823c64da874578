import Reckoner.Builtin
import Reckoner.Token.Basic

/-!
Faults: the causes for which an expression is refused. Each belongs to a kind, which gives its code,
and has one wording. A `Halt` is any way in which an evaluation ends without a value, the few that
are no fault of the expression's form among them.
-/

namespace Reckoner

inductive FaultKind
  | general | character | numeral | identifier | variableName | parentheses | token | trailing
  | arguments | domain | length
  deriving DecidableEq, Repr

namespace FaultKind

def code : FaultKind → String
  | .general => "EXPRESSION_FORMAT_ERROR"
  | .character => "UNEXPECTED_CHARACTER"
  | .numeral => "NUMERIC_PARSE"
  | .identifier => "UNKNOWN_IDENTIFIER"
  | .variableName => "UNDEFINED_VARIABLE"
  | .parentheses => "MISMATCHED_PARENTHESES"
  | .token => "UNEXPECTED_TOKEN"
  | .trailing => "UNEXPECTED_TOKEN_AT_END"
  | .arguments => "ARGUMENT_COUNT"
  | .domain => "DOMAIN_ERROR"
  | .length => "TOO_LONG"

/-- The name under which a kind is reported. -/
def label : FaultKind → String
  | .general => "ExpressionFormatError"
  | .character => "UnexpectedCharacterError"
  | .numeral => "NumericParseError"
  | .identifier => "UnknownIdentifierError"
  | .variableName => "UndefinedVariableError"
  | .parentheses => "MismatchedParenthesesError"
  | .token => "UnexpectedTokenError"
  | .trailing => "UnexpectedTokenAtEndError"
  | .arguments => "ArgumentCountError"
  | .domain => "DomainError"
  | .length => "InputTooLongError"

def all : List FaultKind :=
  [.general, .character, .numeral, .identifier, .variableName, .parentheses, .token, .trailing,
    .arguments, .domain, .length]

theorem mem_all (k : FaultKind) : k ∈ all := by cases k <;> decide

def ofLabel? (label : String) : Option FaultKind := all.find? fun k => k.label = label

end FaultKind

/-! ### Wordings, from parts already written out -/

namespace Wording

def character (char position : String) : String :=
  "Unexpected character: " ++ char ++ " at position " ++ position

def numeral (text position : String) : String :=
  "Invalid number: " ++ text ++ " at position " ++ position

def identifier (name : String) : String := "Unknown variable, function, or constant: " ++ name

def variableName (name : String) : String := "Variable '" ++ name ++ "' is not defined."

def arguments (name arity supplied : String) : String :=
  "Function '" ++ name ++ "' expects " ++ arity ++ " argument(s), got " ++ supplied

def length (length limit : String) : String :=
  "Input too long (" ++ length ++ " > " ++ limit ++ " characters)"

end Wording

/-- Why an expression is refused. -/
inductive Fault
  | unexpectedCharacter (char : Char) (position : Nat)
  | malformedNumber (text : String) (position : Nat)
  | unknownIdentifier (name : String)
  | undefinedVariable (name : String)
  /-- A parenthesis is not closed where its content ends. -/
  | unclosed
  /-- No parenthesis follows a function's name. -/
  | unopened (function : String)
  /-- The token cannot start an operand. -/
  | unexpectedToken (found : Token)
  /-- The expression is over before the token. -/
  | trailingToken (found : Token)
  | missingArguments (function : String) (arity supplied : Nat)
  | outsideDomain (function : Restricted)
  | tooLong (length : Nat) (limit : Int)
  deriving DecidableEq

namespace Fault

def kind : Fault → FaultKind
  | .unexpectedCharacter .. => .character
  | .malformedNumber .. => .numeral
  | .unknownIdentifier _ => .identifier
  | .undefinedVariable _ => .variableName
  | .unclosed | .unopened _ => .parentheses
  | .unexpectedToken _ => .token
  | .trailingToken _ => .trailing
  | .missingArguments .. => .arguments
  | .outsideDomain _ => .domain
  | .tooLong .. => .length

def code (f : Fault) : String := f.kind.code

def message : Fault → String
  | .unexpectedCharacter c p => Wording.character (Text.quote (String.singleton c)) (toString p)
  | .malformedNumber t p => Wording.numeral (Text.quote t) (toString p)
  | .unknownIdentifier n => Wording.identifier n
  | .undefinedVariable n => Wording.variableName n
  | .unclosed => "Mismatched parentheses."
  | .unopened f => "Expected '(' after function name: " ++ f
  | .unexpectedToken t => "Unexpected token: " ++ t.describe
  | .trailingToken t => "Unexpected token at the end of the expression: " ++ t.describe
  | .missingArguments f a s => Wording.arguments f (toString a) (toString s)
  | .outsideDomain f => f.name ++ " is undefined for " ++ f.hole
  | .tooLong l m => Wording.length (toString l) (toString m)

end Fault

/-- How an evaluation ends without a value. -/
inductive Halt
  | fault (cause : Fault)
  /-- The expression is nested too deeply. -/
  | tooDeep
  /-- A token was asked for after the last one. -/
  | pastEnd
  /-- A token names a function or a constant that is not known. -/
  | unknownName (name : String)
  /-- A computation has failed, and nothing has handled the failure. -/
  | raised (failure : MathFault)
  deriving DecidableEq

namespace Halt

def ofRefusal : Refusal → Halt
  | .outside f => .fault (.outsideDomain f)
  | .raised f => .raised f

/-- A computation in an evaluation, which halts where the computation fails. -/
def raising {α : Type} (outcome : Except MathFault α) : Except Halt α := outcome.mapError .raised

@[simp] theorem raising_ok {α : Type} (a : α) : raising (.ok a) = .ok a := rfl

def message : Halt → String
  | .fault f => f.message
  | .tooDeep => "Expression is nested too deeply"
  | .pastEnd => "tuple index out of range"
  | .unknownName n => Text.quote n
  | .raised f => f.message

end Halt
end Reckoner
