import MibDrivers.CommandLine.Grammar

/-!
# Reading arguments

Arguments are read one after another. An argument names a command, is an option, is the value
of the option before it, or stands for the positional parameter. The argument `--` ends the
options. A value is accepted when the next argument is read that does not belong to it, so
that of two faults the later one can be reported; a command is complete before the values
given before it are accepted.

## Main definitions

* `Stop` — why reading ends without a command to run
* `Reading` — the command and what was given, at each level
* `Arguments.read` — reads arguments
-/

namespace MibDrivers.CommandLine

/-- Why reading ends without a command to run. -/
inductive Stop where
  /-- Help is asked for. -/
  | help
  /-- The version is asked for. -/
  | version
  /-- There is no command of that name. -/
  | unknownCommand (name : String)
  /-- The argument has no meaning. -/
  | unknownArgument (argument : String)
  /-- A parameter is given twice, or two are given that exclude each other. -/
  | conflict
  /-- A value is missing or not accepted. -/
  | badValue
  /-- There is a value where none belongs. -/
  | unneededValue
  /-- A parameter that has to be given is missing. -/
  | missingParameter
  /-- A command that has to follow is missing. -/
  | missingCommand
  /-- A command that needs another one stands alone. -/
  | nothingGiven
  deriving DecidableEq, Repr

/-- What is given to one command: parameters with their values, empty for a flag. -/
abbrev Given := List (Parameter × String)

/-- What was read: the last command and what is given to each one, from the main command
on. -/
structure Reading where
  command : Command
  levels : List Given
  deriving DecidableEq, Repr

/-- The value of a parameter. What is given to a later command counts. -/
def Reading.value? (reading : Reading) (parameter : Parameter) : Option String :=
  reading.levels.reverse.findSome? (·.lookup parameter)

/-- The parameter is given. -/
def Reading.has (reading : Reading) (parameter : Parameter) : Bool :=
  (reading.value? parameter).isSome

namespace Arguments

/-! ### The state of one level -/

/-- A parameter whose value is not accepted yet, and the value, once it is there. -/
structure Pending where
  parameter : Parameter
  value? : Option String
  deriving DecidableEq, Repr

/-- What was read at one level so far. -/
structure Progress where
  given : Given := []
  pending? : Option Pending := none
  /-- The options are ended. -/
  ended : Bool := false
  deriving DecidableEq, Repr

namespace Progress

/-- Something is given for a parameter. -/
def mentions (progress : Progress) (parameter : Parameter) : Bool :=
  (progress.given.lookup parameter).isSome ||
    progress.pending?.any fun pending => pending.parameter == parameter

/-- Accepts a value. -/
def accept (progress : Progress) (parameter : Parameter) (value : String) :
    Except Stop Progress :=
  if (progress.given.lookup parameter).isSome && !parameter.repeats then .error .conflict
  else if !parameter.accepts value then .error .badValue
  else .ok { progress with given := progress.given ++ [(parameter, value)] }

/-- Accepts the value that is pending, if there is one. -/
def settle (progress : Progress) : Except Stop Progress :=
  match progress.pending? with
  | none => .ok progress
  | some { parameter, value? := some value } =>
    { progress with pending? := none }.accept parameter value
  | some { value? := none, .. } => .error .badValue

/-- The next argument is the value of an option, unless it is an option itself. -/
def awaitsValue (progress : Progress) : Bool :=
  progress.pending?.any fun pending => pending.value?.isNone

/-- Takes the value of an option: the one that is attached to it, which is accepted at once,
or the one that follows. -/
def takeValue (progress : Progress) (parameter : Parameter) (attached? : Option String) :
    Except Stop Progress := do
  let settled ← progress.settle
  match attached? with
  | some value => settled.accept parameter value
  | none => return { settled with pending? := some { parameter, value? := none } }

/-- Follows an option that takes no value. -/
def follow (progress : Progress) : OptionPurpose → Except Stop Progress
  | .flag parameter => do (← progress.settle).accept parameter ""
  | .value parameter => progress.takeValue parameter none
  | .help => do
    let _ ← progress.settle
    throw .help
  | .version => do
    let _ ← progress.settle
    throw .version

end Progress

/-! ### Single arguments -/

/-- How an argument is written. -/
inductive Form where
  /-- The argument `--`. -/
  | ending
  /-- A long option with the value after `=`, if there is one. -/
  | long (name : String) (value? : Option String)
  /-- Letters after one dash. -/
  | letters (cs : List Char)
  /-- Anything else. -/
  | plain
  deriving DecidableEq, Repr

/-- The text after a first `=`. -/
def afterEquals? (cs : List Char) : Option String :=
  match cs.dropWhile (· ≠ '=') with
  | [] => none
  | _ :: value => some (String.ofList value)

/-- How an argument is written. -/
def form (argument : String) : Form :=
  match argument.toList with
  | ['-', '-'] => .ending
  | '-' :: '-' :: cs => .long (String.ofList (cs.takeWhile (· ≠ '='))) (afterEquals? cs)
  | '-' :: c :: cs => .letters (c :: cs)
  | _ => .plain

/-- Reads a long option. -/
def readLong (command : Command) (progress : Progress) (name : String)
    (value? : Option String) : Except Stop Progress :=
  match command.options.find? (·.long = name) with
  | none => .error (.unknownArgument ("--" ++ name))
  | some { purpose := .value parameter, .. } => progress.takeValue parameter value?
  | some { purpose, .. } =>
    if value?.isSome then .error .unneededValue else progress.follow purpose

/-- The value that is attached to a letter, with or without `=` before it. -/
def attached? : List Char → Option String
  | [] => none
  | '=' :: value => some (String.ofList value)
  | value => some (String.ofList value)

/-- Reads letters. One that takes a value has the rest attached to it. -/
def readLetters (command : Command) (progress : Progress) :
    List Char → Except Stop Progress
  | [] => .ok progress
  | letter :: rest =>
    match command.options.find? (·.letter = some letter) with
    | none => .error (.unknownArgument ("-" ++ String.singleton letter))
    | some { purpose := .value parameter, .. } =>
      progress.takeValue parameter (attached? rest)
    | some { purpose, .. } => do readLetters command (← progress.follow purpose) rest

/-- Why an argument has no meaning. Where a command could stand it is taken for one, but the
name of a command after the end of the options is just out of place. -/
def unexpected (command : Command) (progress : Progress) (argument : String) : Stop :=
  if command.subcommands.isEmpty then .unknownArgument argument
  else if progress.ended && (command.subcommands.lookup argument).isSome then
    .unknownArgument argument
  else .unknownCommand argument

/-- Takes an argument for the positional parameter, which is given at most once. -/
def readPositional (command : Command) (progress : Progress) (argument : String) :
    Except Stop Progress :=
  match command.positional? with
  | none => .error (unexpected command progress argument)
  | some parameter =>
    if progress.mentions parameter then .error (unexpected command progress argument)
    else do
      let settled ← progress.settle
      return { settled with pending? := some { parameter, value? := some argument } }

/-- Reads an argument that names no command. -/
def readArgument (command : Command) (progress : Progress) (argument : String) :
    Except Stop Progress :=
  if progress.ended then readPositional command progress argument
  else match form argument with
    | .ending => .ok { progress with ended := true }
    | .long name value? => readLong command progress name value?
    | .letters cs => readLetters command progress cs
    | .plain =>
      match progress.pending? with
      | some { parameter, value? := none } =>
        .ok { progress with pending? := some { parameter, value? := some argument } }
      | _ => readPositional command progress argument

/-- The command that an argument names. It names none after the end of the options, or where
a value is awaited. -/
def subcommand? (command : Command) (progress : Progress) (argument : String) :
    Option Command :=
  if progress.ended || progress.awaitsValue then none
  else command.subcommands.lookup argument

/-! ### All arguments -/

/-- Accepts what is pending when a level ends. -/
def close (progress : Progress) : Except Stop Given := do
  return (← progress.settle).given

/-- Checks what is given to a command that no other follows. -/
def validate (command : Command) (given : Given) : Except Stop Unit :=
  if command.needsSubcommand then
    .error (if given.isEmpty then .nothingGiven else .missingCommand)
  else if command.exclusive.any fun (first, second) =>
      (given.lookup first).isSome && (given.lookup second).isSome then .error .conflict
  else if command.required.any fun parameter => (given.lookup parameter).isNone then
    .error .missingParameter
  else .ok ()

/-- Reads the names of commands after `help`. -/
def readHelp (command : Command) : List String → Stop
  | [] => .help
  | name :: rest =>
    match command.subcommands.lookup name with
    | some child => readHelp child rest
    | none => .unknownCommand name

/-- Reads the arguments that remain for a command. -/
def readFrom (command : Command) (progress : Progress) :
    List String → Except Stop Reading
  | [] => do
    let given ← close progress
    validate command given
    return { command, levels := [given] }
  | argument :: rest =>
    match subcommand? command progress argument with
    | some .help => .error (readHelp command rest)
    | some child => do
      let inner ← readFrom child {} rest
      let given ← close progress
      return { inner with levels := given :: inner.levels }
    | none => do readFrom command (← readArgument command progress argument) rest

/-- Reads arguments. -/
def read (arguments : List String) : Except Stop Reading := readFrom .main {} arguments

end Arguments

end MibDrivers.CommandLine
