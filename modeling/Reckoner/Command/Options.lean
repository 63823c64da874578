import Reckoner.Log.Level
import Reckoner.Settings
import Reckoner.Text.Quoted

/-!
The options of the command. A long option may be cut short as long as it stays unambiguous, and takes
its argument behind an equals sign or as the next word; short options may be joined in one word, the
last of them with its argument. A word that looks like a negative number, or holds a space and is no
option, is an argument. Two dashes joined to an option are taken away, which leaves it with nothing.
-/

namespace Reckoner.Command

inductive Flag
  | help | expression | binding | fromRight | form | precision | version | logLevel | logFile
  deriving DecidableEq, Repr

namespace Flag

/-- Every spelling of a flag, in the order in which they are offered. -/
def spellings : List (String × Flag) :=
  [("-h", .help), ("--help", .help), ("-e", .expression), ("--eval", .expression),
    ("--var", .binding), ("--pow-from-right", .fromRight), ("--format", .form),
    ("-p", .precision), ("--precision", .precision), ("-v", .version), ("--version", .version),
    ("--log-level", .logLevel), ("--log-file", .logFile)]

/-- Whether the flag needs an argument. -/
def takesArgument : Flag → Bool
  | .help | .fromRight | .version => false
  | .expression | .binding | .form | .precision | .logLevel | .logFile => true

/-- The flag with all its spellings. -/
def label (f : Flag) : String :=
  "/".intercalate ((spellings.filter fun (_, g) => g = f).map Prod.fst)

def ofSpelling? (word : String) : Option Flag := spellings.lookup word

end Flag

/-- How results are written. -/
inductive Form
  | human | json
  deriving DecidableEq, Repr

namespace Form

def choices : List (String × Form) := [("json", .json), ("human", .human)]

end Form

def logLevels : List String := ["DEBUG", "INFO", "WARNING", "ERROR"]

/-- Why the words of a command cannot be taken. -/
inductive OptionFault
  | noArgument (flag : Flag)
  /-- The flag takes no argument, but has one joined to it. -/
  | needlessArgument (flag : Flag) (text : String)
  | notWhole (flag : Flag) (text : String)
  | noChoice (flag : Flag) (text : String) (choices : List String)
  | ambiguous (word : String) (candidates : List String)
  | unrecognized (words : List String)
  deriving DecidableEq, Repr

namespace OptionFault

/-- What is wrong with a flag's argument. -/
def about (flag : Flag) (text : String) : String := "argument " ++ flag.label ++ ": " ++ text

def message : OptionFault → String
  | .noArgument f => about f "expected one argument"
  | .needlessArgument f s => about f ("ignored explicit argument " ++ Text.quote s)
  | .notWhole f s => about f ("invalid int value: " ++ Text.quote s)
  | .noChoice f s choices =>
    about f ("invalid choice: " ++ Text.quote s ++ " (choose from "
      ++ ", ".intercalate (choices.map Text.quote) ++ ")")
  | .ambiguous word candidates =>
    "ambiguous option: " ++ word ++ " could match " ++ ", ".intercalate candidates
  | .unrecognized words => "unrecognized arguments: " ++ " ".intercalate words

end OptionFault

/-! ### Words -/

inductive Word
  | argument
  /-- Two dashes, behind which all words are arguments. -/
  | divider
  /-- A flag, perhaps with a text joined to it, behind an equals sign or at once. -/
  | flag (flag : Flag) (joined : Option (List Char))
  /-- It looks like an option, but there is none. -/
  | unknown
  deriving DecidableEq, Repr

namespace Word

/-- A minus before digits of any script, with an optional point before the last of them; a line feed
may follow. -/
def isNegativeNumber (word : List Char) : Bool :=
  let isDigit (c : Char) : Bool := (Text.DecimalDigit.value? c).isSome
  let isRun (cs : List Char) : Bool := !cs.isEmpty && cs.all isDigit
  match word with
  | '-' :: cs =>
    let body := if cs.getLast? = some '\n' then cs.dropLast else cs
    match body.span isDigit with
    | (whole, []) => isRun whole
    | (_, '.' :: rest) => isRun rest
    | _ => false
  | _ => false

/-- A word as a flag with what is joined to it by the first equals sign. -/
def divide (word : List Char) : String × Option (List Char) :=
  match word.span (· ≠ '=') with
  | (front, []) => (String.ofList front, none)
  | (front, _ :: rest) => (String.ofList front, some rest)

/-- The flags that a word with two dashes may be cut from, with their spellings. -/
def candidates (front : String) : List (String × Flag) :=
  Flag.spellings.filter fun (spelling, _) => front.toList.isPrefixOf spelling.toList

/-- A word that starts with a dash and is no option. -/
def ofOther (word : List Char) : Word :=
  if isNegativeNumber word || word.contains ' ' then .argument else .unknown

/-- A word that starts with two dashes, which may be cut short. -/
def ofLong (word : List Char) : Except OptionFault Word :=
  let (front, joined) := divide word
  match candidates front with
  | [] => return ofOther word
  | [(_, f)] => return .flag f joined
  | several => throw (.ambiguous (String.ofList word) (several.map Prod.fst))

/-- A word that starts with one dash, with more joined to its first letter. -/
def ofShort (word : List Char) : Word :=
  match Flag.ofSpelling? (String.ofList (word.take 2)) with
  | some f => .flag f (some (word.drop 2))
  | none => ofOther word

/-- What a word before any divider is. -/
def classify (text : String) : Except OptionFault Word :=
  match Flag.ofSpelling? text, text.toList with
  | some f, _ => return .flag f none
  | none, '-' :: second :: rest =>
    let (front, joined) := divide ('-' :: second :: rest)
    match joined, Flag.ofSpelling? front with
    | some joined, some f => return .flag f (some joined)
    | _, _ => if second = '-' then ofLong ('-' :: second :: rest) else
      return ofShort ('-' :: second :: rest)
  | none, _ => return .argument

/-- The words of a command, each with what it is. -/
def classifyAll : List String → Except OptionFault (List (String × Word))
  | [] => return []
  | text :: texts =>
    if text = "--" then return (text, .divider) :: texts.map fun t => (t, .argument)
    else return (text, ← classify text) :: (← classifyAll texts)

end Word

/-! ### Joined flags -/

/-- The last flag of a word. -/
inductive Tail
  /-- A flag with its argument joined. -/
  | joined (flag : Flag) (text : String)
  /-- A flag with nothing joined. -/
  | bare (flag : Flag)
  deriving DecidableEq, Repr

/-- Takes the flags in one word apart: those before the last, and the last. -/
def unjoin (flag : Flag) (text : List Char) : Except OptionFault (List Flag × Tail) :=
  if flag.takesArgument then return ([], .joined flag (String.ofList text))
  else
    match text with
    | [] => throw (.needlessArgument flag "")
    | c :: rest =>
      match Flag.ofSpelling? (String.ofList ['-', c]) with
      | none => throw (.needlessArgument flag (String.ofList (c :: rest)))
      | some next =>
        if rest.isEmpty then return ([flag], .bare next)
        else do
          let (flags, tail) ← unjoin next rest
          return (flag :: flags, tail)

/-- Takes a flag with a joined text apart; a long flag is not joined to others. -/
def unjoinWord (flag : Flag) (long : Bool) (text : List Char) :
    Except OptionFault (List Flag × Tail) :=
  if long && !flag.takesArgument then throw (.needlessArgument flag (String.ofList text))
  else unjoin flag text

/-! ### Options -/

/-- What a flag that takes an argument is left with. -/
inductive Argument (α : Type)
  | given (value : α)
  | nothing
  deriving DecidableEq, Repr

/-- The argument that a text joined to a flag is: two dashes are taken away. -/
def Argument.ofJoined (text : String) : Argument String :=
  if text = "--" then .nothing else .given text

structure Options where
  expression : Option (Argument String) := none
  bindings : List (Argument String) := []
  fromRight : Bool := false
  form : Form := .human
  precision : Option (Argument Int) := none
  version : Bool := false
  logLevel : Argument String
  logFile : Option String := none
  deriving DecidableEq, Repr

/-- What a command asks for. -/
inductive Request
  | help
  | run (options : Options)
  deriving DecidableEq, Repr

namespace Options

/-- Sets a flag that takes no argument; to ask for help ends the command. -/
def switch (o : Options) : Flag → Request
  | .help => .help
  | .fromRight => .run { o with fromRight := true }
  | .version => .run { o with version := true }
  | _ => .run o

/-- Sets a flag to a text. -/
def setText (o : Options) (flag : Flag) (text : String) : Except OptionFault Options :=
  match flag with
  | .expression => return { o with expression := some (.given text) }
  | .binding => return { o with bindings := o.bindings ++ [.given text] }
  | .form =>
    match Form.choices.lookup text with
    | some form => return { o with form := form }
    | none => throw (.noChoice .form text (Form.choices.map Prod.fst))
  | .precision =>
    match Numeral.integer text with
    | .ok n => return { o with precision := some (.given n) }
    | .error _ => throw (.notWhole .precision text)
  | .logLevel =>
    if logLevels.contains text then return { o with logLevel := .given text }
    else throw (.noChoice .logLevel text logLevels)
  | .logFile => return { o with logFile := some text }
  | .help | .fromRight | .version => return o

/-- Sets a flag to nothing: results are then written for people, and no log file is kept. -/
def setNothing (o : Options) : Flag → Options
  | .expression => { o with expression := some .nothing }
  | .binding => { o with bindings := o.bindings ++ [.nothing] }
  | .form => { o with form := .human }
  | .precision => { o with precision := some .nothing }
  | .logLevel => { o with logLevel := .nothing }
  | .logFile => { o with logFile := none }
  | .help | .fromRight | .version => o

/-- Sets a flag to its argument. -/
def set (o : Options) (flag : Flag) : Argument String → Except OptionFault Options
  | .given text => o.setText flag text
  | .nothing => return o.setNothing flag

/-- Sets flags that take no argument, one after the other. -/
def switchAll (o : Options) : List Flag → Request
  | [] => .run o
  | flag :: flags =>
    match o.switch flag with
    | .help => .help
    | .run o => switchAll o flags

/-- Takes the words in turn; `others` are those taken for nothing so far. -/
def takeAll (o : Options) (others : List String) :
    List (String × Word) → Except OptionFault Request
  | [] => if others.isEmpty then return .run o else throw (.unrecognized others)
  | (text, .argument) :: rest | (text, .divider) :: rest | (text, .unknown) :: rest =>
    takeAll o (others ++ [text]) rest
  | (text, .flag flag joined) :: rest => do
    let (flags, tail) ←
      match joined with
      | none => pure ([], Tail.bare flag)
      | some joined => unjoinWord flag (['-', '-'].isPrefixOf text.toList) joined
    match tail with
    | .joined last text =>
      match o.switchAll flags with
      | .help => return .help
      | .run o => takeAll (← o.set last (.ofJoined text)) others rest
    | .bare last =>
      if last.takesArgument then
        match rest with
        | (text, .argument) :: rest =>
          match o.switchAll flags with
          | .help => return .help
          | .run o => takeAll (← o.set last (.given text)) others rest
        | _ => throw (.noArgument last)
      else
        match o.switchAll (flags ++ [last]) with
        | .help => return .help
        | .run o => takeAll o others rest

/-- The request that the words of a command make, with the settings for what they leave open. -/
def parse (settings : Settings) (words : List String) : Except OptionFault Request := do
  takeAll { logLevel := .given (Text.upper settings.logLevel) } [] (← Word.classifyAll words)

end Options
end Reckoner.Command
