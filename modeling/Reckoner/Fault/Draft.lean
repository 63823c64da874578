import Reckoner.Fault.Basic

/-!
Faults drafted from loose parts: a kind, and the texts and numbers that fill its wording. Six kinds
have parts of their own; the others take a finished message, and a code if it is not to be theirs.
-/

namespace Reckoner

/-- A loose part of a draft. -/
inductive Part
  | text (s : String)
  | number (n : Int)
  | nothing
  deriving DecidableEq, Repr

namespace Part

def plain : Part → String
  | .text s => s
  | .number n => toString n
  | .nothing => "None"

def quoted : Part → String
  | .text s => Text.quote s
  | p => p.plain

/-- Whether the part says anything: not the empty text, nor zero. -/
def isGiven : Part → Bool
  | .text s => s ≠ ""
  | .number n => n ≠ 0
  | .nothing => false

/-- What the part is, where it should have been a text. -/
def sort : Part → String
  | .text _ => "str"
  | .number _ => "int"
  | .nothing => "NoneType"

end Part

/-- Why parts do not make a draft. -/
inductive DraftFault
  | missing (label : String) (names : List String)
  | tooMany (label : String) (least most given : Nat)
  | notText (sort : String)
  deriving DecidableEq, Repr

namespace DraftFault

/-- Names in quotes, as an enumeration. -/
def enumerate (names : List String) : String :=
  match names.map fun n => "'" ++ n ++ "'" with
  | [] => ""
  | [a] => a
  | [a, b] => a ++ " and " ++ b
  | all => ", ".intercalate all.dropLast ++ ", and " ++ all.getLastD ""

def message : DraftFault → String
  | .missing label names =>
    label ++ ".__init__() missing " ++ toString names.length ++ " required positional argument"
      ++ (if names.length = 1 then "" else "s") ++ ": " ++ enumerate names
  | .tooMany label least most given =>
    label ++ ".__init__() takes "
      ++ (if least = most then toString most else "from " ++ toString least ++ " to " ++ toString most)
      ++ " positional arguments but " ++ toString given ++ " were given"
  | .notText sort => "__str__ returned non-string (type " ++ sort ++ ")"

end DraftFault

structure Draft where
  message : String
  code : Part
  deriving DecidableEq

namespace Draft

/-- The parts that a kind of fault is worded from, for kinds with parts of their own. -/
def parts? : FaultKind → Option (List String)
  | .character => some ["char", "position"]
  | .numeral => some ["text", "position"]
  | .identifier | .variableName => some ["name"]
  | .arguments => some ["name", "arity", "supplied"]
  | .length => some ["length", "limit"]
  | .general | .parentheses | .token | .trailing | .domain => none

/-- The wording of a kind with parts of its own, once there are as many as it takes. -/
def wording : FaultKind → List Part → String
  | .character, [c, p] => Wording.character c.quoted p.plain
  | .numeral, [t, p] => Wording.numeral t.quoted p.plain
  | .identifier, [n] => Wording.identifier n.plain
  | .variableName, [n] => Wording.variableName n.plain
  | .arguments, [f, a, s] => Wording.arguments f.plain a.plain s.plain
  | .length, [l, m] => Wording.length l.plain m.plain
  | _, _ => ""

/-- A draft from a finished message and, if it says anything, a code. -/
def ofMessage (kind : FaultKind) (message code : Part) : Except DraftFault Draft :=
  match message with
  | .text s => return ⟨s, if code.isGiven then code else .text kind.code⟩
  | p => throw (.notText p.sort)

def ofParts (kind : FaultKind) (parts : List Part) : Except DraftFault Draft :=
  match parts? kind with
  | some names =>
    if parts.length < names.length then throw (.missing kind.label (names.drop parts.length))
    else if names.length < parts.length then
      throw (.tooMany kind.label (names.length + 1) (names.length + 1) (parts.length + 1))
    else return ⟨wording kind parts, .text kind.code⟩
  | none =>
    match parts with
    | [] => throw (.missing FaultKind.general.label ["message"])
    | [message] => ofMessage kind message .nothing
    | [message, code] => ofMessage kind message code
    | _ => throw (.tooMany FaultKind.general.label 2 3 (parts.length + 1))

end Draft
end Reckoner
