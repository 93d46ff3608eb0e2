/-!
# Hosts

A host is where a run takes place: it has files and programs, and an account under which the
run takes place. Runs are written for any monad that offers a host's operations, so that one
definition serves a machine and a model of one.

## Main definitions

* `ProgramOutput` — what a program leaves when it ends
* `Host` — the operations of a host
* `instHostExceptT` — the host of runs that may fail
-/

namespace MibDrivers

/-- What a program leaves when it ends: its exit code, unless a signal ended it, and the
bytes that it wrote. -/
structure ProgramOutput where
  code : Option Int
  stdout : List UInt8
  stderr : List UInt8
  deriving DecidableEq, Repr

/-- The operations of a host. -/
class Host (m : Type → Type) where
  /-- There is a file or directory at a path. -/
  hasPath : String → m Bool
  /-- The text of a file, or why it cannot be read. -/
  readText : String → m (Except String String)
  /-- Replaces a file or makes it, and tells whether that succeeded. A file is never left
  half written. -/
  writeText : String → String → m Bool
  /-- Runs a program with arguments, or nothing if it cannot be started. -/
  runProgram : String → List String → m (Option ProgramOutput)
  /-- The home directory of the account, if the host knows one. -/
  accountHome : m (Option String)

/-- A run that may fail has the host of the runs that do not. -/
instance instHostExceptT {m : Type → Type} {ε : Type} [Monad m] [Host m] :
    Host (ExceptT ε m) where
  hasPath path := ExceptT.lift (Host.hasPath path)
  readText path := ExceptT.lift (Host.readText path)
  writeText path text := ExceptT.lift (Host.writeText path text)
  runProgram program args := ExceptT.lift (Host.runProgram program args)
  accountHome := ExceptT.lift Host.accountHome

end MibDrivers
