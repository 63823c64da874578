import Reckoner.Proofs.Json.Number
import Reckoner.Proofs.Json.Text

/-!
JSON texts and the data they stand for, as RFC 8259 has them. Some readers also take the words `NaN`,
`Infinity` and `-Infinity`, which are no JSON; whether they are taken is left open as `extended`.
-/

namespace Reckoner.Json

/-- What a JSON text stands for. -/
inductive Datum
  | null
  | truth (b : Bool)
  | number (x : Float)
  | text (s : String)
  | list (items : List Datum)
  | object (members : List (String × Datum))

def isBlank (c : Char) : Bool := c = ' ' || c = '\t' || c = '\n' || c = '\r'

def skip (cs : List Char) : List Char := cs.dropWhile isBlank

def words (extended : Bool) : List (List Char × Datum) :=
  [(['n', 'u', 'l', 'l'], .null), (['t', 'r', 'u', 'e'], .truth true),
    (['f', 'a', 'l', 's', 'e'], .truth false)] ++
  if extended then
    [(['N', 'a', 'N'], .number Binary64.nan),
      (['I', 'n', 'f', 'i', 'n', 'i', 't', 'y'], .number Binary64.infinity),
      (['-', 'I', 'n', 'f', 'i', 'n', 'i', 't', 'y'], .number (-Binary64.infinity))]
  else []

/-- A number or a word, and what follows it. -/
def readScalar (extended : Bool) (cs : List Char) : Option (Datum × List Char) :=
  match readNumber cs with
  | some (x, rest) => some (.number x, rest)
  | none => (words extended).findSome? fun (word, d) => (cs.dropPrefix? word).map (d, ·)

mutual

/-- A value with blanks in front, and what follows it. The fuel only bounds how long the text may be. -/
def readValue (extended : Bool) : Nat → List Char → Option (Datum × List Char)
  | 0, _ => none
  | fuel + 1, cs =>
    match skip cs with
    | '"' :: cs => (readText cs).map fun (s, rest) => (.text s, rest)
    | '[' :: cs =>
      match skip cs with
      | ']' :: rest => some (.list [], rest)
      | cs => (readItems extended fuel cs).map fun (items, rest) => (.list items, rest)
    | '\x7b' :: cs =>
      match skip cs with
      | '\x7d' :: rest => some (.object [], rest)
      | cs => (readMembers extended fuel cs).map fun (members, rest) => (.object members, rest)
    | cs => readScalar extended cs

/-- The items of a list up to the bracket that ends it. -/
def readItems (extended : Bool) : Nat → List Char → Option (List Datum × List Char)
  | 0, _ => none
  | fuel + 1, cs => do
    let (item, cs) ← readValue extended fuel cs
    match skip cs with
    | ',' :: cs => (readItems extended fuel cs).map fun (items, rest) => (item :: items, rest)
    | ']' :: rest => some ([item], rest)
    | _ => none

/-- The members of an object up to the brace that ends it. -/
def readMembers (extended : Bool) : Nat → List Char → Option (List (String × Datum) × List Char)
  | 0, _ => none
  | fuel + 1, cs =>
    match skip cs with
    | '"' :: cs => do
      let (name, cs) ← readText cs
      match skip cs with
      | ':' :: cs => do
        let (d, cs) ← readValue extended fuel cs
        match skip cs with
        | ',' :: cs =>
          (readMembers extended fuel cs).map fun (members, rest) => ((name, d) :: members, rest)
        | '\x7d' :: rest => some ([(name, d)], rest)
        | _ => none
      | _ => none
    | _ => none

end

/-- Whether a text is a JSON text and stands for `d`. -/
def Decodes (extended : Bool) (s : String) (d : Datum) : Prop :=
  ∃ fuel rest, readValue extended fuel s.toList = some (d, rest) ∧ skip rest = []

end Reckoner.Json
