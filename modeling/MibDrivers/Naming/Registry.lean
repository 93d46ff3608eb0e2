import MibDrivers.Text.Decimal

/-!
# Registries of names

A registry hands out names that are not taken. A candidate that is taken gets the decimal of
the least positive number that makes it free. Of as many numbers as there are taken names,
one does, because the candidate itself is among the taken names.

## Main definitions

* `NameRegistry` — the taken names
* `NameRegistry.reserve` — takes names without handing them out
* `NameRegistry.allocate` — hands out a name
-/

namespace MibDrivers

/-- The names that are taken, the last one first. -/
structure NameRegistry where
  taken : List String
  deriving Repr

namespace NameRegistry

/-- The registry in which every name is free. -/
def empty : NameRegistry := ⟨[]⟩

/-- The name is taken. -/
def contains (names : NameRegistry) (name : String) : Bool := names.taken.contains name

/-- Takes names. -/
def reserve (names : NameRegistry) (reserved : List String) : NameRegistry :=
  ⟨reserved.reverse ++ names.taken⟩

/-- A candidate with a number after it. -/
def numbered (candidate : String) (n : Nat) : String :=
  candidate ++ String.ofList (Text.decimal n)

/-- The name that is free for a candidate. -/
def freeName (names : NameRegistry) (candidate : String) : String :=
  if names.contains candidate then
    ((List.range names.taken.length).findSome? fun n =>
      let name := numbered candidate (n + 1)
      if names.contains name then none else some name).getD candidate
  else candidate

/-- Hands out a name for a candidate, which is taken from then on. -/
def allocate (names : NameRegistry) (candidate : String) : String × NameRegistry :=
  let name := names.freeName candidate
  (name, names.reserve [name])

end NameRegistry

end MibDrivers
