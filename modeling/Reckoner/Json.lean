import Reckoner.Report
import Reckoner.Text.Quoted

/-!
Reports as JSON, in ASCII and on one line. A character that is not printable in ASCII is written by
its UTF-16 units; a double in its shortest digits, with the words `NaN`, `Infinity` and `-Infinity`
for what is no JSON number.
-/

namespace Reckoner
namespace Json

/-- The UTF-16 units of a character. -/
def units (c : Char) : List Nat :=
  let code := c.toNat
  if code < 0x10000 then [code]
  else [0xD800 + (code - 0x10000) / 0x400, 0xDC00 + (code - 0x10000) % 0x400]

def escape (c : Char) : List Char :=
  if c = '"' || c = '\\' then ['\\', c]
  else if c = '\n' then ['\\', 'n']
  else if c = '\r' then ['\\', 'r']
  else if c = '\t' then ['\\', 't']
  else if c = '\x0c' then ['\\', 'f']
  else if c = '\x08' then ['\\', 'b']
  else if ' ' ≤ c && c ≤ '~' then [c]
  else (units c).flatMap fun u => '\\' :: 'u' :: Text.Quoted.hex 4 u

def text (s : String) : String :=
  String.ofList ('"' :: s.toList.flatMap escape ++ ['"'])

def number (x : Float) : String :=
  if x.isNaN then "NaN"
  else if x.isInf then if Binary64.isNegative x then "-Infinity" else "Infinity"
  else Decimal.shortestText x

def field : Field → String
  | .truth b => if b then "true" else "false"
  | .number x => number x
  | .text s => text s

def object (fields : List (String × Field)) : String :=
  let members := fields.map fun (name, f) => text name ++ ": " ++ field f
  "\x7b" ++ ", ".intercalate members ++ "\x7d"

end Json

def Report.json (r : Report) : String := Json.object r.fields

end Reckoner
