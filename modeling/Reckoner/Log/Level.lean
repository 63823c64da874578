import Reckoner.Text.Character

/-!
Log levels, and loggers. A level is a number; six numbers have a name, and two more names are other
words for one of them. A logger has a level and the places that its records are written to.
-/

namespace Reckoner
namespace Log
namespace Level

def debug : Int := 10
def info : Int := 20
def warning : Int := 30
def error : Int := 40
def critical : Int := 50

/-- The name under which records of a level are written. -/
def name (level : Int) : String :=
  if level = 50 then "CRITICAL"
  else if level = 40 then "ERROR"
  else if level = 30 then "WARNING"
  else if level = 20 then "INFO"
  else if level = 10 then "DEBUG"
  else if level = 0 then "NOTSET"
  else "Level " ++ toString level

/-- The level that a name in capitals stands for. -/
def ofName? : String → Option Int
  | "CRITICAL" | "FATAL" => some critical
  | "ERROR" => some error
  | "WARNING" | "WARN" => some warning
  | "INFO" => some info
  | "DEBUG" => some debug
  | "NOTSET" => some 0
  | _ => none

end Level

/-- Why a level name cannot be used: in capitals it is one of two words that are taken. -/
inductive LevelFault
  | basicFormat
  | styles
  deriving DecidableEq, Repr

namespace LevelFault

def basicText : String := "%(levelname)s:%(name)s:%(message)s"

def message : LevelFault → String
  | .basicFormat => "Unknown level: '" ++ basicText ++ "'"
  | .styles =>
    "Level not an integer or a valid string: \x7b'%': (<class 'logging.PercentStyle'>, '" ++ basicText
      ++ "'), '\x7b': (<class 'logging.StrFormatStyle'>, '\x7blevelname\x7d:\x7bname\x7d:\x7bmessage\x7d'), "
      ++ "'$': (<class 'logging.StringTemplateStyle'>, '$\x7blevelname\x7d:$\x7bname\x7d:$\x7bmessage\x7d')\x7d"

end LevelFault

/-- The level that a text sets, in capitals or not; an unknown one sets the level of warnings. -/
def levelOf (text : String) : Except LevelFault Int :=
  let name := Text.upper text
  if name = "BASIC_FORMAT" then throw .basicFormat
  else if name = "_STYLES" then throw .styles
  else return (Level.ofName? name).getD Level.warning

/-- Where records are written. -/
inductive Place
  | standardError
  | file (path : String)
  deriving DecidableEq, Repr

/-- Standard error, and the file of a path that is given and not empty. -/
def Place.ofPath (path : Option String) : List Place :=
  .standardError :: ((path.filter (· ≠ "")).map Place.file).toList

structure Logger where
  level : Int
  places : List Place
  deriving DecidableEq, Repr

namespace Logger

def root : String := "tinyexpr"

/-- The name of a part's own logger. -/
def child (part : String) : String := root ++ "." ++ part

/-- Before anything is set up. -/
def fresh : Logger := ⟨0, []⟩

/-- Gives the logger a level, and places for its records instead of those that it had; without a
level it stays as it was. -/
def setUp (l : Logger) (level : String) (path : Option String) : Logger × Option LevelFault :=
  match levelOf level with
  | .ok n => (⟨n, Place.ofPath path⟩, none)
  | .error fault => (l, some fault)

/-- The level below which nothing is logged; the lowest level leaves the choice to the level of
warnings. -/
def threshold (l : Logger) : Int := if l.level = 0 then Level.warning else l.level

end Logger
end Log
end Reckoner
