import MibDrivers.Failure
import MibDrivers.Host.Basic
import MibDrivers.Text.Replace

/-!
# Where a dump comes from

A dump is read from a file, or it is what a program prints. The arguments of the program are
templates in which two placeholders stand for the MIB file and for the expected module. A
program that fails is reported with what it has to say, and so is a dump that cannot be read.

## Main definitions

* `DumpSource` — a file, or a program with its arguments
* `DumpSource.ofCommand` — a program with its templates filled in
* `DumpSource.load` — reads the dump
-/

namespace MibDrivers

/-- Where a dump comes from. -/
inductive DumpSource where
  | file (path : String)
  | program (name : String) (args : List String)
  deriving DecidableEq, Repr

namespace DumpSource

/-- The placeholder for the MIB file. -/
def mibPlaceholder : String := "\x7bmib\x7d"

/-- The placeholder for the expected module. -/
def modulePlaceholder : String := "\x7bmodule\x7d"

/-- A template with the MIB file filled in and then the module, so that a placeholder for the
module which comes with the path of the file is filled in as well. -/
def fillTemplate (mibPath moduleName template : String) : String :=
  String.ofList <| Text.replace modulePlaceholder.toList moduleName.toList <|
    Text.replace mibPlaceholder.toList mibPath.toList template.toList

/-- A program with its templates filled in. An unset module leaves nothing. -/
def ofCommand (program : String) (templates : List String) (mibPath : String)
    (moduleName? : Option String) : DumpSource :=
  .program program (templates.map (fillTemplate mibPath (moduleName?.getD "")))

/-- How messages name a program. -/
def programOrigin (name : String) : String := "`" ++ name ++ "`"

/-- How messages name a source. -/
def origin : DumpSource → String
  | .file path => path
  | .program name _ => programOrigin name

/-- The text that a program printed, unless it failed or printed no text. -/
def printedText (name : String) (output : ProgramOutput) : Except Failure String :=
  if output.code = some 0 then
    (Utf8.decode output.stdout).mapError fun cause =>
      .invalidDump (programOrigin name) (.notText cause)
  else
    .error (.dumpFailed name output.code (Text.trim (Utf8.decodeLossy output.stderr)))

variable {m : Type → Type} [Monad m] [Host m]

/-- The text of the file at a path. An action that cannot be done is reported with the given
name. -/
def readFile (action path : String) : ExceptT Failure m String := do
  match ← Host.readText path with
  | .ok text => return text
  | .error _ => throw (.operation (action ++ ": " ++ path))

/-- The text of the dump. -/
def text : DumpSource → ExceptT Failure m String
  | .file path => readFile "read mib dump" path
  | .program name args => do
    match ← Host.runProgram name args with
    | some output => ExceptT.mk (pure (printedText name output))
    | none => throw (.operation ("spawn mib dump command " ++ programOrigin name))

/-- A dump that came from the given origin. -/
def readDump (origin text : String) : Except Failure Dump :=
  (Dump.ofText text).mapError fun cause => .invalidDump origin (.refused cause)

/-- Reads the dump. -/
def load (source : DumpSource) : ExceptT Failure m Dump := do
  let content ← source.text
  ExceptT.mk (pure (readDump source.origin content))

end DumpSource

end MibDrivers
