import MibDrivers.CommandLine.Session
import MibDrivers.Host.Tree

/-!
# The program

The program reads its arguments and its environment, carries out what they ask for on the
machine it runs on, and prints the transcript. This machine starts no other programs, so a
dump has to come from a file.

## Main definitions

* `machine` — the machine as a host
* `main` — the program
-/

namespace MibDrivers

/-- An action on the machine, or why it fails. -/
def attempt {α : Type} (action : IO α) : BaseIO (Except String α) := do
  match ← action.toBaseIO with
  | .ok value => return .ok value
  | .error cause => return .error (toString cause)

/-- Writes a file by writing another one beside it first. -/
def writeBeside (path text : String) : IO Unit := do
  let directory := (path.toList.reverse.dropWhile (· ≠ '/')).reverse
  unless directory.isEmpty do IO.FS.createDirAll (String.ofList directory)
  let beside := path ++ ".new"
  IO.FS.writeFile beside text
  IO.FS.rename beside path

/-- The fields of the lines of a file, which a separator stands between. -/
def readFields (separator : Char) (path : String) : BaseIO (List (List String)) := do
  let text ← attempt (IO.FS.readFile path)
  return (Text.splitAt '\n' (text.toOption.getD "").toList).map fun line =>
    (Text.splitAt separator line).map String.ofList

/-- The home directory that the list of accounts has for the number of a user. -/
def homeOf (user : String) (accounts : List (List String)) : Option String :=
  (accounts.find? (·[2]? = some user)).bind (·[5]?)

/-- The machine as a host. -/
instance machine : Host BaseIO where
  hasPath path := do
    match ← (IO.FS.Handle.mk path .read).toBaseIO with
    | .ok _ => return true
    | .error (.noFileOrDirectory ..) | .error (.inappropriateType ..) => return false
    | .error _ => return true
  readText path := do
    match ← attempt (IO.FS.readBinFile path) with
    | .ok content =>
      return (Utf8.decode content.toList).mapError fun _ => PathFault.notText.message
    | .error cause => return .error cause
  writeText path text := return (← attempt (writeBeside path text)).isOk
  runProgram _ _ := return none
  accountHome := do
    let status ← readFields '\t' "/proc/self/status"
    let user? := (status.find? (·.head? = some "Uid:")).bind (·[1]?)
    return user?.bind (homeOf · (← readFields ':' "/etc/passwd"))

/-- The variables in a list of assignments, each of which ends with a null character. -/
def readEnvironment (assignments : String) : Environment :=
  (Text.splitAt (Char.ofNat 0) assignments.toList).filterMap fun assignment =>
    match assignment.dropWhile (· ≠ '=') with
    | [] => none
    | _ :: value =>
      some (String.ofList (assignment.takeWhile (· ≠ '=')), String.ofList value)

/-- How the program is used. -/
def usage : String :=
  "Usage: mibgen [-d] [-c FILE] COMMAND\n\n" ++
  "Commands: " ++ CommandLine.commandNames ++ "\n"

/-- What is printed when there is nothing to run. -/
def ofStop : CommandLine.Stop → CommandLine.Transcript
  | .help => { stdout := usage }
  | .version => { stdout := "mibgen 0.3.0\n" }
  | .unknownCommand name => refusal ("unrecognized subcommand '" ++ name ++ "'")
  | .unknownArgument argument => refusal ("unexpected argument '" ++ argument ++ "' found")
  | .conflict => refusal "an argument cannot be used here"
  | .badValue => refusal "a value is missing or invalid"
  | .unneededValue => refusal "a value is given where none belongs"
  | .missingParameter => refusal "a required argument is missing"
  | .missingCommand => refusal "a subcommand is missing"
  | .nothingGiven => { exitCode := 2, stderr := usage }
where
  /-- A refusal of the arguments. -/
  refusal (text : String) : CommandLine.Transcript :=
    { exitCode := 2, stderr := "error: " ++ text ++ "\n\n" ++ usage }

end MibDrivers

open MibDrivers in
/-- The program. -/
def main (arguments : List String) : IO UInt32 := do
  let assignments ← attempt (IO.FS.readFile "/proc/self/environ")
  let environment := readEnvironment (assignments.toOption.getD "")
  let run : BaseIO (Except CommandLine.Stop CommandLine.Transcript) :=
    CommandLine.session environment arguments
  let transcript := match ← run with
    | .ok transcript => transcript
    | .error stop => ofStop stop
  IO.print transcript.stdout
  IO.eprint transcript.stderr
  return transcript.exitCode.toUInt32
