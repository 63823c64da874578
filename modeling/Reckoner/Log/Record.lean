import Reckoner.Log.Level
import Reckoner.Text.Quoted

/-!
Log records. A record is written on one line, behind the message the expression it is about, quoted
and cut to a limit; an error it carries follows on a line of its own.
-/

namespace Reckoner.Log

/-- An error that a record carries: what it is, and its text. -/
structure Carried where
  kind : String
  text : String
  deriving DecidableEq, Repr

/-- The text of an error, as it is shown: a missing key is quoted, and a fault of syntax without a
text says so. -/
def Carried.shown (c : Carried) : String :=
  if c.kind = "KeyError" then Text.quote c.text
  else if c.text = "" && ["SyntaxError", "IndentationError", "TabError"].contains c.kind then
    "<no detail available>"
  else c.text

def Carried.line (c : Carried) : String :=
  if c.shown = "" then c.kind else c.kind ++ ": " ++ c.shown

/-- What a record is about. -/
inductive Subject
  | expression (text : String)
  /-- An evaluation that was given no expression. -/
  | nothing
  deriving DecidableEq, Repr

structure Record where
  level : Int
  logger : String
  message : String
  subject : Option Subject := none
  carried : Option Carried := none
  deriving DecidableEq, Repr

/-- The longest expression that is shown in full. -/
def excerptLimit : Int := 80

/-- The first characters of a list, or with a negative count all but that many at the end. -/
def front (count : Int) (cs : List Char) : List Char :=
  if count < 0 then cs.take (cs.length - count.natAbs) else cs.take count.toNat

/-- A text cut to `limit` characters, three of them dots in place of what is left out. -/
def excerpt (limit : Int) (text : String) : String :=
  if text.length ≤ limit then text
  else String.ofList (front (limit - 3) text.toList ++ ['.', '.', '.'])

namespace Subject

/-- The expression, which is empty if none was given. -/
def text : Subject → String
  | .expression e => e
  | .nothing => ""

def shown : Subject → String
  | .expression e => Text.quote (excerpt excerptLimit e)
  | .nothing => "[]"

end Subject

namespace Record

/-- The record as it is written, behind a timestamp. -/
def write (r : Record) (timestamp : String) : String :=
  timestamp ++ " [" ++ Level.name r.level ++ "] " ++ r.logger ++ ": " ++ r.message
    ++ (match r.subject with
      | some s => " (expression=" ++ s.shown ++ ")"
      | none => "")
    ++ (match r.carried with
      | some c => "\n" ++ c.line
      | none => "")

end Record
end Reckoner.Log
