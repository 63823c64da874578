import Reckoner.Evaluation
import Reckoner.Text.Character

/-!
Settings, as the environment gives them: how long an expression may be, from which side powers are
raised, how many digits are shown, and what is logged.
-/

namespace Reckoner

structure Settings where
  maxLength : Int := 10000
  order : PowerOrder := .fromLeft
  precision : Int := 12
  logLevel : String := "WARNING"
  deriving DecidableEq, Repr

/-- A setting that should be a whole number and is none. -/
structure SettingFault where
  text : String
  fault : Numeral.IntegerFault
  deriving DecidableEq, Repr

/-- The first characters of a text. -/
def Text.upTo (count : Nat) (s : String) : String := String.ofList (s.toList.take count)

namespace SettingFault

def message (f : SettingFault) : String :=
  match f.fault with
  | .malformed => "invalid literal for int() with base 10: " ++ Text.upTo 200 (Text.quote f.text)
  | .tooManyDigits count =>
    "Exceeds the limit (" ++ toString Numeral.digitLimit
      ++ " digits) for integer string conversion: value has " ++ toString count
      ++ " digits; use sys.set_int_max_str_digits() to increase the limit"

end SettingFault

namespace Settings

def standard : Settings := {}

/-- The limits of an evaluation that has a number of frames. -/
def limits (s : Settings) (frames : Nat) : Limits := { length := s.maxLength, frames }

def version : String := "0.1.0"

/-- A whole number from the environment, or the one that stands for it. -/
def number (environment : Table String) (name : String) (otherwise : Int) :
    Except SettingFault Int :=
  match environment.get? name with
  | some text => (Numeral.integer text).mapError fun fault => { text, fault }
  | none => return otherwise

def orderOf (text : String) : PowerOrder :=
  if Text.lower text = "true" then .fromRight else .fromLeft

def maxLengthName : String := "TINYEXPR_MAX_INPUT_LENGTH"
def orderName : String := "TINYEXPR_POW_FROM_RIGHT"
def precisionName : String := "TINYEXPR_OUTPUT_PRECISION"
def logLevelName : String := "TINYEXPR_LOG_LEVEL"

/-- The names that are looked up in the environment. -/
def names : List String := [maxLengthName, orderName, precisionName, logLevelName]

/-- The settings that an environment gives; the length is looked at before the precision. -/
def ofEnvironment (environment : Table String) : Except SettingFault Settings := do
  let maxLength ← number environment maxLengthName standard.maxLength
  let precision ← number environment precisionName standard.precision
  return {
    maxLength
    precision
    order := ((environment.get? orderName).map orderOf).getD standard.order
    logLevel := (environment.get? logLevelName).getD standard.logLevel }

end Settings
end Reckoner
