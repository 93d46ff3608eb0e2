/-!
# The grammar of the command line

The command line names commands, one within the other, and gives parameters. A parameter is
given by an option, which has a long name and may have a letter, or by its position. The
options of the main command are understood by every command.

## Main definitions

* `Command` — the commands
* `Parameter` — what can be given
* `Command.subcommands`, `Command.options`, `Command.positional?` — what a command
  understands
-/

namespace MibDrivers.CommandLine

/-- The commands. `main` is the program itself. -/
inductive Command where
  | main
  | generate
  | check
  | tree
  | config
  | showConfig
  | showPaths
  | initConfig
  | completion
  | help
  deriving DecidableEq, Repr

/-- What can be given on the command line. -/
inductive Parameter where
  | debug
  | configPath
  | dumpFile
  | mibPath
  | moduleName
  | output
  | toStdout
  | file
  | globalConfig
  | force
  | shell
  deriving DecidableEq, Repr

/-- The shells for which completions are offered. -/
inductive Shell where
  | bash
  | elvish
  | fish
  | powershell
  | zsh
  deriving DecidableEq, Repr

/-- The shells by name. -/
def Shell.names : List (String × Shell) := [
  ("bash", .bash), ("elvish", .elvish), ("fish", .fish), ("powershell", .powershell),
  ("zsh", .zsh)]

/-- A value that a parameter may have: a path is not empty, and a shell is known. -/
def Parameter.accepts (parameter : Parameter) (value : String) : Bool :=
  match parameter with
  | .configPath | .dumpFile | .mibPath | .output | .file => !value.isEmpty
  | .shell => (Shell.names.lookup value).isSome
  | .debug | .moduleName | .toStdout | .globalConfig | .force => true

/-- The parameter may be given more than once. -/
def Parameter.repeats : Parameter → Bool
  | .debug => true
  | _ => false

/-- What an option is for. -/
inductive OptionPurpose where
  /-- It gives a parameter the value that follows. -/
  | value (parameter : Parameter)
  /-- It gives a parameter without a value. -/
  | flag (parameter : Parameter)
  /-- It asks for help. -/
  | help
  /-- It asks for the version. -/
  | version
  deriving DecidableEq, Repr

/-- An option. -/
structure OptionSpec where
  long : String
  letter : Option Char := none
  purpose : OptionPurpose
  deriving DecidableEq, Repr

/-- The options that every command understands. -/
def commonOptions : List OptionSpec := [
  { long := "debug", letter := some 'd', purpose := .flag .debug },
  { long := "config", letter := some 'c', purpose := .value .configPath },
  { long := "help", letter := some 'h', purpose := .help },
  { long := "version", letter := some 'V', purpose := .version }]

/-- The options that say where a dump comes from. -/
def sourceOptions : List OptionSpec := [
  { long := "dump-file", purpose := .value .dumpFile },
  { long := "mib", purpose := .value .mibPath },
  { long := "module", letter := some 'm', purpose := .value .moduleName }]

namespace Command

/-- The commands within a command, by name. A command that has any also has `help`. -/
def subcommands : Command → List (String × Command)
  | .main => [
      ("generate", .generate), ("check", .check), ("tree", .tree), ("config", .config),
      ("completion", .completion), ("help", .help)]
  | .config => [
      ("show", .showConfig), ("path", .showPaths), ("init", .initConfig), ("help", .help)]
  | _ => []

/-- The options of a command that others do not have. -/
def ownOptions : Command → List OptionSpec
  | .generate => sourceOptions ++ [
      { long := "output", letter := some 'o', purpose := .value .output },
      { long := "stdout", purpose := .flag .toStdout }]
  | .check | .tree => sourceOptions
  | .initConfig => [
      { long := "global", letter := some 'g', purpose := .flag .globalConfig },
      { long := "force", letter := some 'f', purpose := .flag .force }]
  | _ => []

/-- The options of a command. -/
def options (command : Command) : List OptionSpec := commonOptions ++ command.ownOptions

/-- The parameter that a command takes by its position. -/
def positional? : Command → Option Parameter
  | .check => some .file
  | .completion => some .shell
  | _ => none

/-- The command has to be followed by one of its commands. -/
def needsSubcommand (command : Command) : Bool := command = .config

/-- The parameters that have to be given. -/
def required : Command → List Parameter
  | .completion => [.shell]
  | _ => []

/-- The parameters that exclude each other. -/
def exclusive : Command → List (Parameter × Parameter)
  | .generate => [(.toStdout, .output)]
  | _ => []

end Command

end MibDrivers.CommandLine
