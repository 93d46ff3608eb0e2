import MibDrivers.Proofs.Driver.Methods
import MibDrivers.Proofs.Entries
import MibDrivers.Proofs.Generation.Stages

/-!
# The methods of a rendered driver

Two methods of a class can share an identifier only if two of the objects that it offers share a
name. No two objects of a merged working set do, since a name that comes again replaces the earlier
object. So whatever dump and baseline a driver is rendered from, each of its classes has methods
with distinct identifiers.

## Main results

* `WorkingSet.nodup_names_merge` — in a merged working set no name comes twice
* `Request.exists_distinct_of_render` — the methods of what is rendered
-/

namespace MibDrivers

variable {request : Request} {host : TreeHost} {report : Report}

/-- In a merged working set no name comes twice. -/
theorem WorkingSet.nodup_names_merge (excluded : List String) (baseline vendor : List Descriptor) :
    ((merge excluded baseline vendor).map (·.name)).Nodup := by
  let arrivals := ((baseline ++ vendor).filter (·.name ∉ excluded)).map fun d => (d.name, d)
  -- Every object is kept under its name.
  have hkeys : (Entries.ofList arrivals).map (fun entry => entry.2.name) =
      (Entries.ofList arrivals).map Prod.fst := by
    refine List.map_congr_left fun entry hentry => ?_
    obtain ⟨d, -, rfl⟩ := List.mem_map.mp (Entries.mem_of_mem_ofList hentry)
    rfl
  have hnames : (merge excluded baseline vendor).map (·.name) =
      (Entries.ofList arrivals).map fun entry => entry.2.name :=
    List.map_map
  rw [hnames, hkeys]
  exact Entries.nodup_keys_ofList arrivals

/-- What is rendered for a request is the source of a plan in which the methods of each class have
distinct identifiers. -/
theorem Request.exists_distinct_of_render (h : (host.perform request.render).1 = .ok report) :
    ∃ options forest classes, Driver.plan options forest = .ok classes ∧
      report.source = Driver.render classes options ∧
      ∀ c ∈ classes, c.identifiers.Nodup := by
  obtain ⟨baseline, vendor, forest, options, classes, hforest, hplan, hsource, -⟩ :=
    exists_plan_of_render h
  refine ⟨options, forest, classes, hplan, hsource, fun c hc => ?_⟩
  exact Driver.identifiers_nodup_of_names hforest hplan hc
    (WorkingSet.nodup_names_merge request.excluded baseline vendor)

end MibDrivers
