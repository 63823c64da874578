import Reckoner.Command.Plan
import Reckoner.Log.Timestamp
import Std.Time.DateTime.Timestamp

/-!
The command itself: it reads its words, its environment and its input, and writes what the plan for
them says.
-/

namespace Reckoner.Command

def readEnvironment : IO (Table String) := do
  let mut environment : Table String := ∅
  for name in Settings.names do
    if let some text ← IO.getEnv name then
      environment := environment.insert name text
  return environment

/-- The time of now, as records bear it. -/
def now : IO String := do
  let nanos := (← Std.Time.Timestamp.now).toNanosecondsSinceUnixEpoch.val
  let stamp : Log.Timestamp := ⟨nanos.fdiv 1000000000, (nanos.fmod 1000000000 / 1000).toNat⟩
  return stamp.text

/-- Opens a place for records; a file goes on where it ends. -/
def openPlace : Log.Place → IO IO.FS.Stream
  | .standardError => IO.getStderr
  | .file path => return .ofHandle (← IO.FS.Handle.mk path .append)

def write (streams : List IO.FS.Stream) : Output → IO Unit
  | .out text => do
    let stdout ← IO.getStdout
    stdout.putStr text
    stdout.flush
  | .err text => IO.eprint text
  | .log record => do
    let line := record.write (← now) ++ "\n"
    streams.forM fun stream => do
      stream.putStr line
      stream.flush

/-- One line of input, without the line feed; none at the end. -/
def readLine : IO (Option String) := do
  let line ← (← IO.getStdin).getLine
  if line.isEmpty then return none
  return some ((inputLines line).headD "")

partial def interact (streams : List IO.FS.Stream) (m : Manner) (vars : Table Float) :
    IO Ending := do
  write streams (.out Manner.prompt)
  match ← readLine with
  | none =>
    write streams (.out "\n")
    return .returned 0
  | some line =>
    let (outputs, next) := m.step vars line
    outputs.forM (write streams)
    match next with
    | .go vars => interact streams m vars
    | .leave => return .returned 0
    | .escape cause => return .escaped cause

def execute (streams : List IO.FS.Stream) : Plan → IO Ending
  | .interactive m vars => interact streams m vars
  | plan => do
    let t := plan.transcript [] .over
    t.outputs.forM (write streams)
    return t.ending

/-- The code of an ending; what breaks a command off is told on standard error. -/
def codeOf : Ending → IO UInt32
  | .returned code | .exited code => return code.toUInt32
  | .escaped cause => do
    IO.eprintln cause.message
    return 1

end Reckoner.Command

def main (words : List String) : IO UInt32 := do
  let environment ← Reckoner.Command.readEnvironment
  let (plan, places) := Reckoner.Command.Plan.ofWords Reckoner.frameLimit environment words
  let streams ← places.mapM Reckoner.Command.openPlace
  Reckoner.Command.codeOf (← Reckoner.Command.execute streams plan)
