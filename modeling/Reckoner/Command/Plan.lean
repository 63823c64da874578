import Reckoner.Command.Manner

/-!
What a command comes to: its words and its environment are turned into a plan, which is over at once,
or evaluates one expression, or goes on line by line. The command describes its options in lines of at
most eighty characters.
-/

namespace Reckoner.Command

def name : String := "tinyexpr"

def lines (ls : List String) : String := String.join (ls.map fun l => l ++ "\n")

/-- The forms of a command. -/
def usage : String :=
  lines
    ["usage: tinyexpr [-h] [-e EVAL_EXPR] [--var NAME=VALUE] [--pow-from-right]",
      "                [--format \x7bjson,human\x7d] [-p PRECISION] [-v]",
      "                [--log-level \x7bDEBUG,INFO,WARNING,ERROR\x7d] [--log-file LOG_FILE]"]

/-- What each option does. -/
def help : String :=
  usage ++ lines
    ["",
      "options:",
      "  -h, --help            show this help message and exit",
      "  -e EVAL_EXPR, --eval EVAL_EXPR",
      "                        Evaluate one expression and exit (non-interactive)",
      "  --var NAME=VALUE      Bind a variable (repeatable)",
      "  --pow-from-right      Treat ^ as right-associative (2^3^2 = 512)",
      "  --format \x7bjson,human\x7d",
      "                        Output format: json (machine-readable) or human",
      "                        (human-readable)",
      "  -p PRECISION, --precision PRECISION",
      "                        Set output precision (significant digits)",
      "  -v, --version         Show program version",
      "  --log-level \x7bDEBUG,INFO,WARNING,ERROR\x7d",
      "                        Set logging level",
      "  --log-file LOG_FILE   Write logs to file"]

inductive Plan
  | over (transcript : Transcript)
  | once (manner : Manner) (vars : Table Float) (subject : Log.Subject)
  | interactive (manner : Manner) (vars : Table Float)

/-- What an evaluation is about that was given an argument. -/
def Argument.subject : Argument String → Log.Subject
  | .given expression => .expression expression
  | .nothing => .nothing

namespace Options

/-- The logger that the options set up, and why they do not. -/
def logger (o : Options) : Log.Logger × Option Escape :=
  match o.logLevel with
  | .given level =>
    let (logger, fault?) := Log.Logger.fresh.setUp level o.logFile
    (logger, fault?.map .level)
  | .nothing => (.fresh, some (.noArgument .logLevel))

/-- How a command ends at a binding that is none. -/
def refuse (fault : BindingFault) : Transcript :=
  ⟨[.err ("Error: " ++ fault.message ++ "\n")], .returned 2⟩

/-- The bindings in order, up to the first that cannot be taken. -/
def bindAll (vars : Table Float) : List (Argument String) → Except Transcript (Table Float)
  | [] => return vars
  | .nothing :: _ => throw ⟨[], .escaped (.noArgument .binding)⟩
  | .given text :: rest =>
    match Binding.parse text with
    | .ok (name, x) => bindAll (vars.insert name x) rest
    | .error fault => throw (refuse fault)

/-- The manner that the options and the settings ask for. -/
def manner (o : Options) (settings : Settings) (frames : Nat) : Manner :=
  { limits := settings.limits frames
    order := if o.fromRight then .fromRight else settings.order
    form := o.form
    precision := o.precision.getD (.given settings.precision)
    threshold := o.logger.1.threshold }

def plan (o : Options) (settings : Settings) (frames : Nat) : Plan :=
  match o.logger.2 with
  | some cause => .over ⟨[], .escaped cause⟩
  | none =>
    if o.version then .over ⟨[.out (name ++ " " ++ Settings.version ++ "\n")], .returned 0⟩
    else
      match bindAll ∅ o.bindings with
      | .error transcript => .over transcript
      | .ok vars =>
        match o.expression with
        | some argument => .once (o.manner settings frames) vars argument.subject
        | none => .interactive (o.manner settings frames) vars

end Options

namespace Plan

/-- The words of a command that cannot be taken. -/
def refused (fault : OptionFault) : Plan :=
  .over ⟨[.err (usage ++ name ++ ": error: " ++ fault.message ++ "\n")], .exited 2⟩

/-- The plan of a command with a number of frames for each evaluation, and the places for its log
records. -/
def ofWords (frames : Nat) (environment : Table String) (words : List String) :
    Plan × List Log.Place :=
  match Settings.ofEnvironment environment with
  | .error fault => (.over ⟨[], .escaped (.setting fault)⟩, [])
  | .ok settings =>
    match Options.parse settings words with
    | .error fault => (refused fault, [])
    | .ok .help => (.over ⟨[.out help], .exited 0⟩, [])
    | .ok (.run o) => (o.plan settings frames, o.logger.1.places)

/-- What a plan writes, given the lines of its input. -/
def transcript (plan : Plan) (lines : List String) (ending : Manner.InputEnd) : Transcript :=
  match plan with
  | .over t => t
  | .once m vars subject => m.once vars subject
  | .interactive m vars => m.interact ending vars lines

end Plan

/-- How a command is started. -/
inductive Entry
  /-- As a function, whose result is the code. -/
  | function
  /-- As a function that catches the user's breaking in. -/
  | guarded
  /-- As a program, which exits with the code. -/
  | program
  /-- As a program that catches the user's breaking in. -/
  | guardedProgram
  deriving DecidableEq, Repr

namespace Entry

def catchesInterrupt : Entry → Bool
  | .guarded | .guardedProgram => true
  | .function | .program => false

def exits : Entry → Bool
  | .program | .guardedProgram => true
  | .function | .guarded => false

def farewell : String := "\nInterrupted by user.\n"

/-- Breaking in, where it is caught, ends the command with a farewell. -/
def settle (e : Entry) (t : Transcript) : Transcript :=
  if e.catchesInterrupt && t.ending = .escaped .interrupted then
    ⟨t.outputs ++ [.out farewell], .returned 1⟩
  else t

/-- A program exits with the code to which it has come. -/
def leave (e : Entry) : Ending → Ending
  | .returned code => if e.exits then .exited code else .returned code
  | ending => ending

def finish (e : Entry) (t : Transcript) : Transcript :=
  let t := e.settle t
  { t with ending := e.leave t.ending }

end Entry

/-- The lines of an input, each of which a line feed ends but perhaps the last. -/
def inputLines (input : String) : List String :=
  let parts := input.splitOn "\n"
  if parts.getLast? = some "" then parts.dropLast else parts

/-- A whole command: the frames that each evaluation has, how it was started, its environment, its
words and its input. -/
def run (frames : Nat) (entry : Entry) (environment : Table String) (words : List String)
    (input : String) (ending : Manner.InputEnd) : Transcript :=
  entry.finish ((Plan.ofWords frames environment words).1.transcript (inputLines input) ending)

end Reckoner.Command
