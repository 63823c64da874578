import Reckoner.Binary64
import Reckoner.Decimal.Basic

/-!
Timestamps of log records. Seconds since the start of 1970 are taken to the microsecond, a half to
the even one, and written as a date and a time of day in universal time, cut to the millisecond.
-/

namespace Reckoner.Log

/-- Why a number of seconds has no timestamp. -/
inductive TimestampFault
  | notANumber
  /-- More seconds than can be counted. -/
  | beyondCount
  /-- More years than can be counted. -/
  | beyondYears
  /-- A year that is not written with four digits. -/
  | year (y : Int)
  deriving DecidableEq, Repr

namespace TimestampFault

def message : TimestampFault → String
  | .notANumber => "Invalid value NaN (not a number)"
  | .beyondCount => "timestamp out of range for platform time_t"
  | .beyondYears => "[Errno 75] Value too large for defined data type"
  | .year y => "year " ++ toString y ++ " is out of range"

end TimestampFault

/-- A day of the Gregorian calendar. -/
structure Date where
  year : Int
  month : Nat
  day : Nat
  deriving DecidableEq, Repr

/-- The date of a day, counted from the first of January 1970. Years are taken from March on, so that
a leap day comes last. -/
def Date.ofDays (days : Int) : Date :=
  let shifted := days + 719468
  let era := shifted.fdiv 146097
  let dayOfEra := (shifted - era * 146097).toNat
  let yearOfEra := (dayOfEra - dayOfEra / 1460 + dayOfEra / 36524 - dayOfEra / 146096) / 365
  let dayOfYear := dayOfEra - (365 * yearOfEra + yearOfEra / 4 - yearOfEra / 100)
  let monthFromMarch := (5 * dayOfYear + 2) / 153
  let month := if monthFromMarch < 10 then monthFromMarch + 3 else monthFromMarch - 9
  { year := yearOfEra + era * 400 + if month ≤ 2 then 1 else 0
    month := month
    day := dayOfYear - (153 * monthFromMarch + 2) / 5 + 1 }

/-- Seconds and microseconds since the start of 1970. -/
structure Timestamp where
  seconds : Int
  micros : Nat
  deriving DecidableEq, Repr

namespace Timestamp

def secondsPerDay : Int := 86400

/-- The integer nearest to a double, a half to the even one. -/
def nearest (x : Float) : Int :=
  match Binary64.fraction? x with
  | some (n, d) => n.sign * (Decimal.roundHalfEven n.natAbs d : Nat)
  | none => 0

/-- The whole seconds of a double, and the rest of it to the microsecond. -/
def split (x : Float) (whole : Int) : Timestamp :=
  let micros := nearest ((x - Float.ofInt whole) * 1000000)
  if 1000000 ≤ micros then ⟨whole + 1, (micros - 1000000).toNat⟩
  else if micros < 0 then ⟨whole - 1, (micros + 1000000).toNat⟩
  else ⟨whole, micros.toNat⟩

/-- The seconds whose year, counted from 1900, is a number of 32 bits. -/
def hasYear (seconds : Int) : Bool :=
  -67768040609740800 ≤ seconds && seconds ≤ 67768036191676799

def date (seconds : Int) : Date := Date.ofDays (seconds.fdiv secondsPerDay)

/-- Refuses a year that is not written with four digits; the day before has to have one as well. -/
def checkYear (seconds : Int) : Except TimestampFault Unit := do
  for s in [seconds, seconds - secondsPerDay] do
    let year := (date s).year
    if year < 1 ∨ 9999 < year then throw (.year (year.bmod 0x100000000))

def ofSeconds (x : Float) : Except TimestampFault Timestamp := do
  if x.isNaN then throw .notANumber
  match Binary64.truncate? x with
  | none => throw .beyondCount
  | some whole =>
    let t := split x whole
    if t.seconds < -0x8000000000000000 ∨ 0x8000000000000000 ≤ t.seconds then throw .beyondCount
    if !hasYear t.seconds then throw .beyondYears
    checkYear t.seconds
    return t

/-- A number in at least `width` digits. -/
def padded (width n : Nat) : String :=
  let digits := Nat.toDigits 10 n
  String.ofList (List.replicate (width - digits.length) '0' ++ digits)

def text (t : Timestamp) : String :=
  let d := date t.seconds
  let second := (t.seconds.fmod secondsPerDay).toNat
  padded 4 d.year.toNat ++ "-" ++ padded 2 d.month ++ "-" ++ padded 2 d.day ++ "T"
    ++ padded 2 (second / 3600) ++ ":" ++ padded 2 (second / 60 % 60) ++ ":"
    ++ padded 2 (second % 60) ++ "." ++ padded 3 (t.micros / 1000)

end Timestamp
end Reckoner.Log
