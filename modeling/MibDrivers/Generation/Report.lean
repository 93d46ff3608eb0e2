import MibDrivers.Driver.Source
import MibDrivers.Forest.Insert
import MibDrivers.Forest.Reconcile
import MibDrivers.Forest.Traversal
import MibDrivers.Generation.Request
import MibDrivers.WorkingSet

/-!
# Generating a driver

A request is met in stages: the dump is loaded, its module is checked, the working set is
merged, nested into a forest and reconciled, and a driver is planned and rendered. The first
stage that fails ends the run, and only after the last one is a file written. A file can be
compared with the driver that would be generated now.

## Main definitions

* `Request.forest` — the reconciled forest of a request
* `Request.render` — what there is to say about its driver, and the source
* `Request.generate` — renders and writes the file of the request
* `Request.check` — compares a file with the source
-/

namespace MibDrivers

/-- The reconciled forest of the objects of a module, whose name the dump may declare. -/
structure ModuleForest where
  moduleName : Option String
  forest : Forest
  deriving Repr

/-- What there is to say about a generated driver. -/
structure Report where
  moduleName : Option String
  classes : Nat
  branches : Nat
  scalars : Nat
  source : String
  /-- The path to which the source was written. -/
  output : Option String := none
  deriving DecidableEq, Repr

/-- How a file compares with the source that would be generated now. -/
inductive Freshness where
  | fresh
  | stale
  | missing
  deriving DecidableEq, Repr

/-- The reconciled forest of a working set. -/
def Forest.ofWorkingSet (descriptors : List Descriptor) : Except MibError Forest := do
  let forest ← Forest.build descriptors
  forest.reconcile.toExcept

/-- What there is to say about the driver of a forest. The header names the module of the
options, or else the one that the dump declares. -/
def Report.ofForest (options : Driver.Options) (mib : ModuleForest) :
    Except MibError Report := do
  let options := { options with moduleName := options.moduleName.or mib.moduleName }
  let classes ← Driver.plan options mib.forest
  return {
    moduleName := mib.moduleName
    classes := classes.length
    branches := mib.forest.branchCount
    scalars := mib.forest.scalarCount
    source := Driver.render classes options }

/-- How a text compares with the source of a report. -/
def Report.compare (report : Report) (text : String) : Freshness :=
  if text = report.source then .fresh else .stale

namespace Request

variable {m : Type → Type} [Monad m] [Host m]

/-- The working set of a request and the module that the dump declares. -/
def workingSet (request : Request) : ExceptT Failure m (Option String × List Descriptor) := do
  let dump ← request.source.load
  let vendor ← ExceptT.mk (pure (dump.expectModule request.expected))
  let baseline ← WorkingSet.baseline request.baseline
  return (dump.moduleName, WorkingSet.merge request.excluded baseline vendor)

/-- The reconciled forest of a request. -/
def forest (request : Request) : ExceptT Failure m ModuleForest := do
  let (moduleName, descriptors) ← request.workingSet
  let forest ← ExceptT.mk (pure ((Forest.ofWorkingSet descriptors).mapError .objects))
  return { moduleName, forest }

/-- What there is to say about the driver of a request, which is not written. -/
def render (request : Request) : ExceptT Failure m Report := do
  let mib ← request.forest
  ExceptT.mk (pure ((Report.ofForest request.options mib).mapError .objects))

/-- Writes the source of a report to a path. -/
def write (report : Report) (path : String) : ExceptT Failure m Report := do
  if ← Host.writeText path report.source then
    return { report with output := some path }
  else throw (.operation ("write generated source: " ++ path))

/-- Renders the driver of a request and writes its file, if it has one. -/
def generate (request : Request) : ExceptT Failure m Report := do
  let report ← request.render
  match request.output with
  | some path => write report path
  | none => return report

/-- Compares the file at a path with the driver of a request. -/
def check (request : Request) (path : String) : ExceptT Failure m Freshness := do
  let report ← request.render
  if ← Host.hasPath path then
    let text ← DumpSource.readFile "read generated source" path
    return report.compare text
  else return .missing

end Request

end MibDrivers
