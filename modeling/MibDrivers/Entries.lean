/-!
# Ordered entries

A list of entries in which a key keeps the place of its first arrival and the value of its
last. Objects of a document and the working set of descriptors are kept this way.

## Main definitions

* `Entries` — keys with values, in order of first arrival
* `Entries.put` — adds an entry, or replaces the value of its key in place
* `Entries.ofList` — the entries that arrivals in the given order leave
-/

namespace MibDrivers

/-- Keys with values, in the order in which the keys first arrived. -/
abbrev Entries (κ α : Type) := List (κ × α)

namespace Entries

variable {κ α : Type} [DecidableEq κ]

/-- Adds an entry at the end, or replaces the value of its key in place. -/
def put (entries : Entries κ α) (key : κ) (value : α) : Entries κ α :=
  match entries with
  | [] => [(key, value)]
  | (k, v) :: rest => if k = key then (k, value) :: rest else (k, v) :: put rest key value

/-- The entries that arrivals in the given order leave. -/
def ofList (arrivals : List (κ × α)) : Entries κ α :=
  arrivals.foldl (fun entries (key, value) => entries.put key value) []

end Entries

end MibDrivers
