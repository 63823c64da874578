import Reckoner.Binary64
import Reckoner.Text.Character

/-!
Numerals as they are read. Blanks may surround one, its digits may be of any script, and a single
underscore may stand between two digits. A real numeral has an optional fraction and power of ten,
or is one of the words for infinity and for no number.
-/

namespace Reckoner.Numeral

open Text (isBlank strip)

/-- Blanks around a numeral; the four information separators do not count among them. -/
def isMargin (c : Char) : Bool := isBlank c && !(0x1C ≤ c.toNat && c.toNat ≤ 0x1F)

/-- A digit of any script as the ASCII digit of the same value, all else as it is. -/
def plainDigit (c : Char) : Char :=
  match Text.DecimalDigit.value? c with
  | some n => Text.DecimalDigit.ofValue n
  | none => c

/-- A numeral without its margins, in plain digits. -/
def plain (s : String) : List Char := (strip isMargin s.toList).map plainDigit

/-- Takes a sign off the front, and says whether it is the minus. -/
def sign : List Char → Bool × List Char
  | '-' :: cs => (true, cs)
  | '+' :: cs => (false, cs)
  | cs => (false, cs)

def ofDigits (ds : List Char) : Nat := ds.foldl (fun n d => 10 * n + (d.toNat - '0'.toNat)) 0

/-- Takes the underscores away, each of which has to stand between two digits; `before` tells whether
a digit has just been read. -/
def ungroup (before : Bool) : List Char → Option (List Char)
  | [] => some []
  | '_' :: d :: cs =>
    if before && d.isDigit then (ungroup true cs).map (d :: ·) else none
  | ['_'] => none
  | c :: cs => (ungroup c.isDigit cs).map (c :: ·)

/-! ### Real numerals -/

/-- The double nearest to `coefficient · 10 ^ exponent`, a half going to the even one. -/
def nearest (coefficient : Nat) (exponent : Int) : Float :=
  .ofModel (.ofScientific coefficient exponent)

/-- The power of ten after the digits of a numeral. -/
def power? : List Char → Option Int
  | [] => some 0
  | c :: cs =>
    if c = 'e' || c = 'E' then
      let (minus, ds) := sign cs
      if ds.isEmpty || !ds.all Char.isDigit then none
      else some (if minus then -(ofDigits ds : Int) else ofDigits ds)
    else none

/-- The digits behind a point, and what follows them. -/
def fraction : List Char → List Char × List Char
  | '.' :: cs => cs.span Char.isDigit
  | cs => ([], cs)

/-- Digits with an optional point among or around them, and an optional power of ten. -/
def decimal? (cs : List Char) : Option Float :=
  let (whole, rest) := cs.span Char.isDigit
  let (parts, rest) := fraction rest
  if (whole ++ parts).isEmpty then none
  else (power? rest).map fun k => nearest (ofDigits (whole ++ parts)) (k - parts.length)

def magnitude? (cs : List Char) : Option Float :=
  let word := String.ofList (cs.map Char.toLower)
  if word = "inf" || word = "infinity" then some Binary64.infinity
  else if word = "nan" then some Binary64.nan
  else decimal? cs

/-- The double that a real numeral denotes. -/
def real? (s : String) : Option Float := do
  let (minus, cs) := sign (← ungroup false (plain s))
  let x ← magnitude? cs
  return if minus then -x else x

/-! ### Whole numerals -/

/-- Why a text is no whole number. -/
inductive IntegerFault
  | malformed
  /-- It has more digits than are read. -/
  | tooManyDigits (count : Nat)
  deriving DecidableEq, Repr

/-- The most digits that a whole numeral may have. -/
def digitLimit : Nat := 4300

/-- The integer that a whole numeral denotes. Its digits are counted before what follows them is
looked at. -/
def integer (s : String) : Except IntegerFault Int := do
  let (minus, cs) := sign (plain s)
  let (run, rest) := cs.span fun c => c.isDigit || c = '_'
  match ungroup false run with
  | none | some [] => throw .malformed
  | some ds =>
    if digitLimit < ds.length then throw (.tooManyDigits ds.length)
    if !rest.isEmpty then throw .malformed
    return if minus then -(ofDigits ds : Int) else ofDigits ds

end Reckoner.Numeral
