import Reckoner.Fault.Basic
import Reckoner.Scope
import Reckoner.Text.Character

/-!
Scanning: a text as a list of tokens that ends in one `Token.ending`. Numbers and names are taken as
far as they go, blanks are left out, and the first thing that is no lexeme is the fault.
-/

namespace Reckoner.Token

def isNumberPart (c : Char) : Bool := c.isDigit || c == '.'

def isOperator (c : Char) : Bool :=
  c == '+' || c == '-' || c == '*' || c == '/' || c == '^' || c == '%' || c == '!' || c == '('
    || c == ')'

/-- The number that a run of digits and points denotes. -/
def ofNumeral (text : String) (position : Nat) : Except Fault Token :=
  match Numeral.real? text with
  | some x => return .number x
  | none => throw (.malformedNumber text position)

/-- A name as a token of the role that it has in the scope. -/
def ofName (scope : Scope) (name : String) : Except Fault Token :=
  match scope.role? name with
  | some .func => return .func name
  | some .const => return .const name
  | some .var => return .var name
  | none => throw (.unknownIdentifier name)

/-- The tokens of a text whose first character stands at `position`. -/
def scanFrom (scope : Scope) (position : Nat) : List Char → Except Fault (List Token)
  | [] => return [.ending]
  | c :: cs =>
    if isNumberPart c then do
      let run := c :: cs.takeWhile isNumberPart
      let token ← ofNumeral (String.ofList run) position
      let tokens ← scanFrom scope (position + run.length) (cs.dropWhile isNumberPart)
      return token :: tokens
    else if Text.isNameStart c then do
      let run := c :: cs.takeWhile Text.isNamePart
      let token ← ofName scope (String.ofList run)
      let tokens ← scanFrom scope (position + run.length) (cs.dropWhile Text.isNamePart)
      return token :: tokens
    else if isOperator c then
      return .op (String.singleton c) :: (← scanFrom scope (position + 1) cs)
    else if c = ',' then
      return .separator :: (← scanFrom scope (position + 1) cs)
    else if Text.isBlank c then scanFrom scope (position + 1) cs
    else throw (.unexpectedCharacter c position)
termination_by cs => cs.length
decreasing_by
  · exact Nat.lt_succ_of_le (List.dropWhile_suffix _).length_le
  · exact Nat.lt_succ_of_le (List.dropWhile_suffix _).length_le
  · exact Nat.lt_succ_self _
  · exact Nat.lt_succ_self _
  · exact Nat.lt_succ_self _

/-- The tokens of a text of at most `limit` characters. -/
def scan (scope : Scope) (limit : Int) (text : String) : Except Fault (List Token) :=
  if limit < text.length then throw (.tooLong text.length limit)
  else scanFrom scope 0 text.toList

end Reckoner.Token
