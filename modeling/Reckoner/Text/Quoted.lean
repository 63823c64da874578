import Reckoner.Text.Printable

/-!
Quoted text on one line. A text stands between single quotes, or between double quotes if it holds
a single quote and no double one; the quote itself, the backslash and every character that is not
printable are escaped.
-/

namespace Reckoner.Text.Quoted

/-- `width` hexadecimal digits of `n`, small letters. -/
def hex : Nat → Nat → List Char
  | 0, _ => []
  | width + 1, n => hex width (n / 16) ++ [Nat.digitChar (n % 16)]

/-- A character that is not printable, by its code point in the shortest of three widths. -/
def escapeCode (c : Char) : List Char :=
  let code := c.toNat
  if code < 0x100 then '\\' :: 'x' :: hex 2 code
  else if code < 0x10000 then '\\' :: 'u' :: hex 4 code
  else '\\' :: 'U' :: hex 8 code

/-- A character as it stands between two quotes of the given kind. -/
def escape (quote : Char) (c : Char) : List Char :=
  if c = quote || c = '\\' then ['\\', c]
  else if c = '\n' then ['\\', 'n']
  else if c = '\r' then ['\\', 'r']
  else if c = '\t' then ['\\', 't']
  else if Printable.isPrintable c then [c]
  else escapeCode c

/-- Single quotes, unless only double ones save an escape. -/
def quoteFor (cs : List Char) : Char :=
  if cs.contains '\'' && !cs.contains '"' then '"' else '\''

def encode (cs : List Char) : List Char :=
  let quote := quoteFor cs
  quote :: cs.flatMap (escape quote) ++ [quote]

end Quoted

def quote (s : String) : String := String.ofList (Quoted.encode s.toList)

end Reckoner.Text
