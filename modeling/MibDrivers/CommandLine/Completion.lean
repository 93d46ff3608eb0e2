import MibDrivers.CommandLine.Grammar

/-!
# Completions

A shell completes the name of a command after the name of the program. The script for a
shell offers the commands of the grammar.

## Main definitions

* `Shell.completions` — the script for a shell
-/

namespace MibDrivers.CommandLine

/-- The name of the program. -/
def programName : String := "mibgen"

/-- The names of the commands, separated by blanks. -/
def commandNames : String := String.intercalate " " (Command.main.subcommands.map Prod.fst)

/-- The script for a shell. -/
def Shell.completions : Shell → String
  | .bash => "complete -W \"" ++ commandNames ++ "\" " ++ programName ++ "\n"
  | .elvish =>
    "set edit:completion:arg-completer[" ++ programName ++ "] = \x7b|@words| put " ++
      commandNames ++ " \x7d\n"
  | .fish => "complete -c " ++ programName ++ " -f -a \"" ++ commandNames ++ "\"\n"
  | .powershell =>
    "Register-ArgumentCompleter -Native -CommandName " ++ programName ++
      " -ScriptBlock \x7b -split '" ++ commandNames ++ "' \x7d\n"
  | .zsh => "#compdef " ++ programName ++ "\ncompadd " ++ commandNames ++ "\n"

end MibDrivers.CommandLine
