import Reckoner.Command.Options
import Reckoner.Display
import Reckoner.Fault.Basic
import Reckoner.Log.Record

/-!
Transcripts: all that a command has written, in order, and how it ended.
-/

namespace Reckoner.Command

/-- One thing written: on standard output, on standard error, or in the log. -/
inductive Output
  | out (text : String)
  | err (text : String)
  | log (record : Log.Record)
  deriving DecidableEq, Repr

/-- What can break a command off. -/
inductive Escape
  | setting (fault : SettingFault)
  | level (fault : Log.LevelFault)
  | halt (cause : Halt)
  | precision (fault : PrecisionFault)
  /-- A flag that is left with nothing, where its argument is needed. -/
  | noArgument (flag : Flag)
  /-- The user broke in. -/
  | interrupted
  deriving DecidableEq

inductive Ending
  /-- The command came to its end, with a code. -/
  | returned (code : Nat)
  /-- It left the program at once, with a code. -/
  | exited (code : Nat)
  | escaped (cause : Escape)
  deriving DecidableEq

structure Transcript where
  outputs : List Output
  ending : Ending
  deriving DecidableEq

namespace Escape

def message : Escape → String
  | .setting f => f.message
  | .level f => f.message
  | .halt h => h.message
  | .precision f => f.message
  | .noArgument .binding => "'list' object has no attribute 'partition'"
  | .noArgument .logLevel => "'list' object has no attribute 'upper'"
  | .noArgument _ =>
    "int() argument must be a string, a bytes-like object or a real number, not 'list'"
  | .interrupted => ""

end Escape

namespace Transcript

/-- What was written first, before the transcript. -/
def after (outputs : List Output) (t : Transcript) : Transcript :=
  { t with outputs := outputs ++ t.outputs }

def onOutput (t : Transcript) : String :=
  String.join (t.outputs.filterMap fun
    | .out s => some s
    | _ => none)

/-- Standard error, with the log records among what else is there. -/
def onError (timestamp : String) (t : Transcript) : String :=
  String.join (t.outputs.filterMap fun
    | .err s => some s
    | .log r => some (r.write timestamp ++ "\n")
    | .out _ => none)

/-- The log records alone. -/
def inLog (timestamp : String) (t : Transcript) : String :=
  String.join (t.outputs.filterMap fun
    | .log r => some (r.write timestamp ++ "\n")
    | _ => none)

end Transcript
end Reckoner.Command
