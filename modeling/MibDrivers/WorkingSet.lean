import MibDrivers.Dump.Source
import MibDrivers.Entries
import MibDrivers.SystemGroup

/-!
# The working set of a driver

A driver is made from a baseline and the objects that the vendor declares. The baseline is
the system group or a dump of its own. A name that comes again replaces the earlier object in
its place, and excluded names are left out of both.

## Main definitions

* `WorkingSet.merge` — the objects that a driver is made from
* `WorkingSet.baseline` — the objects of the baseline
* `Dump.expectModule` — the objects of a dump that has to declare a module
-/

namespace MibDrivers

/-- The objects of a dump, which has to declare the expected module if there is one, and to
list nodes. -/
def Dump.expectModule (dump : Dump) (expected? : Option String) :
    Except Failure (List Descriptor) :=
  match expected? with
  | some expected =>
    if dump.moduleName = some expected then listed expected
    else .error (.moduleNotFound expected dump.moduleName)
  | none => listed (dump.moduleName.getD "<any>")
where
  /-- The objects of a dump that lists nodes. -/
  listed (expected : String) : Except Failure (List Descriptor) :=
    match dump.descriptors with
    | some descriptors => .ok descriptors
    | none => .error (.moduleNotFound expected none)

namespace WorkingSet

/-- The objects that a driver is made from, in the order in which their names first come. -/
def merge (excluded : List String) (baseline vendor : List Descriptor) : List Descriptor :=
  let arrivals := (baseline ++ vendor).filter (·.name ∉ excluded)
  (Entries.ofList (arrivals.map fun d => (d.name, d))).map Prod.snd

/-- The objects of a dump that serves as a baseline. -/
def readBaseline (path text : String) : Except Failure (List Descriptor) := do
  let dump ← DumpSource.readDump path text
  match dump.descriptors with
  | some descriptors => return descriptors
  | none => throw (.invalidDump path .noNodes)

/-- The objects of the baseline: those of the dump at a path, or else the system group. -/
def baseline {m : Type → Type} [Monad m] [Host m] :
    Option String → ExceptT Failure m (List Descriptor)
  | some path => do
    let content ← DumpSource.readFile "read baseline" path
    ExceptT.mk (pure (readBaseline path content))
  | none => return SystemGroup.descriptors

end WorkingSet

end MibDrivers
