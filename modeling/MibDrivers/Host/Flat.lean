import MibDrivers.Entries
import MibDrivers.Host.Basic

/-!
# Flat hosts

A flat host keeps texts by path, without directories. Some paths may be closed: there is
something, but it can neither be read nor written. Every program leaves the same output, and
the runs of programs are recorded. There are no accounts.

## Main definitions

* `FlatHost` — the state of a flat host
* `FlatHost.instHost` — its operations
-/

namespace MibDrivers

/-- The state of a flat host. -/
structure FlatHost where
  /-- The texts by path. -/
  texts : Entries String String := []
  /-- The paths that can neither be read nor written. -/
  closed : List String := []
  /-- What every program leaves, unless none can be started. -/
  output : Option ProgramOutput := none
  /-- The runs of programs so far, in their order. -/
  calls : List (String × List String) := []
  deriving Repr

namespace FlatHost

/-- There is something at a path. -/
def has (host : FlatHost) (path : String) : Bool :=
  (host.texts.lookup path).isSome || path ∈ host.closed

/-- The text at a path that can be read. -/
def read? (host : FlatHost) (path : String) : Option String :=
  if path ∈ host.closed then none else host.texts.lookup path

/-- The host with the text at a path replaced. -/
def put (host : FlatHost) (path text : String) : FlatHost :=
  { host with texts := host.texts.put path text }

instance instHost : Host (StateM FlatHost) where
  hasPath path := return (← get).has path
  readText path := do
    match (← get).read? path with
    | some text => return .ok text
    | none => return .error "cannot be read"
  writeText path text := do
    if path ∈ (← get).closed then return false
    modify (·.put path text)
    return true
  runProgram program args := do
    modify fun host => { host with calls := host.calls ++ [(program, args)] }
    return (← get).output
  accountHome := return none

end FlatHost

end MibDrivers
