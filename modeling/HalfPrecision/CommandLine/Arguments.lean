import HalfPrecision.Layout.Validation
import HalfPrecision.Text
import HalfPrecision.Text.Quoted

/-!
# Arguments

A command line is a list of options and values. An option is given by its name, by an unambiguous
beginning of a long name, or joined with its argument. What only looks like an option is a value: a
lone dash, a negative number, a text with a space in it, and everything after a double dash. The
values stand in one group; later values and unknown options are left over, which is an error. A
double dash that is joined to an option is no argument, and leaves the option without one.
-/

namespace HalfPrecision.CommandLine

inductive Flag where
  | help
  | source
  | logLevel
deriving DecidableEq, Repr

/-- The names of the options in the order in which they are tried. -/
def flagNames : List (String × Flag) := [
  ("-h", .help), ("--help", .help), ("--from", .source), ("--log-level", .logLevel)]

/-- An option by all its names. -/
def Flag.label : Flag → String
  | help => "-h/--help"
  | source => "--from"
  | logLevel => "--log-level"

/-- The names of layouts in alphabetical order. -/
def layoutNames : List String := [
  "binary16", "binary32", "binary64", "double", "f16", "f32", "f64", "float16", "float32",
  "float64", "half", "single"]

/-- What is wrong with a command line. -/
inductive UsageError where
  | ambiguous (argument : String) (names : List String)
  | argumentNeeded (flag : Flag)
  | argumentUnused (flag : Flag) (argument : String)
  | noSuchLayout (name : String)
  | valuesNeeded
  | leftOver (arguments : List String)
deriving DecidableEq, Repr

def UsageError.message : UsageError → String
  | ambiguous argument names =>
      "ambiguous option: " ++ argument ++ " could match " ++ ", ".intercalate names
  | argumentNeeded flag => "argument " ++ flag.label ++ ": expected one argument"
  | argumentUnused flag argument =>
      "argument " ++ flag.label ++ ": ignored explicit argument " ++ Text.quoted argument
  | noSuchLayout name =>
      "argument " ++ Flag.source.label ++ ": invalid choice: " ++ Text.quoted name ++
        " (choose from " ++ ", ".intercalate (layoutNames.map Text.quoted) ++ ")"
  | valuesNeeded => "the following arguments are required: values"
  | leftOver arguments => "unrecognized arguments: " ++ " ".intercalate arguments

/-- How an argument is joined to the option that it follows. -/
inductive Joined where
  | apart
  | directly (argument : List Char)
  | byEquals (argument : List Char)
deriving DecidableEq, Repr

/-- What an argument is taken for. -/
inductive Token where
  | value (text : String)
  | option (flag : Flag) (name : String) (joined : Joined)
  | unknown (text : String)
deriving DecidableEq, Repr

/-- A text up to its first equals sign, and what follows that. -/
def splitEquals (s : List Char) : List Char × Option (List Char) :=
  match s.span (· ≠ '=') with
  | (before, []) => (before, none)
  | (before, _ :: after) => (before, some after)

/-- The argument after an equals sign, if there is one. -/
def joinedBy : Option (List Char) → Joined
  | none => .apart
  | some argument => .byEquals argument

/-- Whether a text is a negative number: digits of any script, or a point with digits after it. A
line feed may end it. -/
def isNegativeNumber : List Char → Bool
  | '-' :: rest =>
      let (whole, rest) := rest.span Text.isDigit
      let ended (s : List Char) : Bool := s.isEmpty || s == ['\n']
      match rest with
      | '.' :: rest =>
          let (fraction, rest) := rest.span Text.isDigit
          !fraction.isEmpty && ended rest
      | rest => !whole.isEmpty && ended rest
  | _ => false

/-- The options that an argument may stand for without being the full name of one. -/
def abbreviations (s : List Char) : List (Flag × String × Joined) :=
  match s with
  | '-' :: '-' :: _ =>
      let (start, argument) := splitEquals s
      flagNames.filterMap fun (name, flag) =>
        if start.isPrefixOf name.toList then some (flag, name, joinedBy argument) else none
  | _ =>
      flagNames.filterMap fun (name, flag) =>
        if name.toList = s.take 2 then some (flag, name, .directly (s.drop 2)) else none

/-- Take an argument for a value or an option. -/
def Token.ofArgument (argument : String) : Except UsageError Token :=
  let s := argument.toList
  if s.head? ≠ some '-' || s.length = 1 then .ok (.value argument)
  else
    match flagNames.lookup argument with
    | some flag => .ok (.option flag argument .apart)
    | none =>
        let (start, joined) := splitEquals s
        let name := String.ofList start
        match flagNames.lookup name, joined with
        | some flag, some given => .ok (.option flag name (.byEquals given))
        | _, _ =>
            match abbreviations s with
            | [(flag, name, joined)] => .ok (.option flag name joined)
            | [] =>
                if isNegativeNumber s || s.contains ' ' then .ok (.value argument)
                else .ok (.unknown argument)
            | found => .error (.ambiguous argument (found.map fun (_, name, _) => name))

/-- What is asked for by a command line. An option that was left without an argument has none. -/
structure Settings where
  source : Option Layout
  logLevel : Option String
  values : List String
deriving DecidableEq

inductive Request where
  | help
  | inspect (settings : Settings)
deriving DecidableEq

/-- What has been read of a command line. -/
structure Progress where
  source : Option Layout := some .half
  logLevel : Option String := some "WARNING"
  values : Option (List String) := none
  leftOver : List String := []

namespace Progress

/-- Give an option its argument. -/
def give (progress : Progress) (flag : Flag) (argument : String) : Except UsageError Progress :=
  match flag with
  | .help => .ok progress
  | .source =>
      let name := String.ofList (Text.lower argument.toList)
      match Layout.ofName? name with
      | some layout => .ok { progress with source := some layout }
      | none => .error (.noSuchLayout name)
  | .logLevel => .ok { progress with logLevel := some argument }

/-- Leave an option without an argument. -/
def withdraw (progress : Progress) : Flag → Progress
  | .help => progress
  | .source => { progress with source := none }
  | .logLevel => { progress with logLevel := none }

/-- Give an option the argument that is joined to it. -/
def giveJoined (progress : Progress) (flag : Flag) (argument : String) :
    Except UsageError Progress :=
  if argument = "--" then .ok (progress.withdraw flag) else progress.give flag argument

/-- Take a group of values: the first one is kept, others are left over. -/
def take (progress : Progress) (group : List String) : Progress :=
  if progress.values.isNone && !group.isEmpty then { progress with values := some group }
  else { progress with leftOver := progress.leftOver ++ group }

/-- Take the last group of values, with those after a double dash. -/
def takeLast (progress : Progress) (group : List String) (after : Option (List String)) :
    Progress :=
  match after with
  | none => progress.take group
  | some more =>
      if progress.values.isNone && !(group ++ more).isEmpty then progress.take (group ++ more)
      else { progress with leftOver := progress.leftOver ++ group ++ "--" :: more }

/-- What is asked for when all is read. -/
def finish (progress : Progress) : Except UsageError Request :=
  match progress.values with
  | none => .error .valuesNeeded
  | some values =>
      if progress.leftOver.isEmpty then
        .ok (.inspect { source := progress.source, logLevel := progress.logLevel, values })
      else .error (.leftOver progress.leftOver)

end Progress

/-- Whether letters after the short name of help all ask for help again. -/
def checkHelpLetters : List Char → Except UsageError Unit
  | [] => .ok ()
  | 'h' :: rest => checkHelpLetters rest
  | rest => .error (.argumentUnused .help (String.ofList rest))

/-- Whether help is asked for without an argument. Only its short name may have letters joined to
it, and at least one after an equals sign. -/
def checkHelp (name : String) : Joined → Except UsageError Unit
  | .apart => .ok ()
  | .directly argument => checkHelpLetters argument
  | .byEquals argument =>
      if name = "-h" && !argument.isEmpty then checkHelpLetters argument
      else .error (.argumentUnused .help (String.ofList argument))

/-- Read the arguments before a double dash; `pending` holds the values since the last option. -/
def readTokens (after : Option (List String)) :
    List Token → Progress → List String → Except UsageError Request
  | [], progress, pending => (progress.takeLast pending after).finish
  | .value text :: rest, progress, pending => readTokens after rest progress (pending ++ [text])
  | .unknown text :: rest, progress, pending =>
      let taken := progress.take pending
      readTokens after rest { taken with leftOver := taken.leftOver ++ [text] } []
  | .option .help name joined :: _, _, _ =>
      match checkHelp name joined with
      | .ok () => .ok .help
      | .error e => .error e
  | .option flag _ (.byEquals argument) :: rest, progress, pending => do
      let given ← (progress.take pending).giveJoined flag (String.ofList argument)
      readTokens after rest given []
  | .option flag _ (.directly argument) :: rest, progress, pending => do
      let given ← (progress.take pending).giveJoined flag (String.ofList argument)
      readTokens after rest given []
  | .option flag _ .apart :: .value argument :: rest, progress, pending => do
      readTokens after rest (← (progress.take pending).give flag argument) []
  | .option flag _ .apart :: _, _, _ => .error (.argumentNeeded flag)

/-- Read a command line. -/
def Request.ofArguments (arguments : List String) : Except UsageError Request := do
  let (before, rest) := arguments.span (· ≠ "--")
  let tokens ← before.mapM Token.ofArgument
  readTokens (rest.tail?) tokens {} []

end HalfPrecision.CommandLine
