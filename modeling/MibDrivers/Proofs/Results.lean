/-!
# Results that may be errors

## Main definitions

* `error?` — the error of a computation

## Main results

* `bind_eq_ok` — a computation of two parts succeeds if both do
* `error?_bind` — and otherwise has the error of the first part that fails
* `mapError_eq_ok` — another wording of an error does not touch what succeeds
-/

namespace MibDrivers

variable {ε ε' α β : Type} {x : Except ε α}

theorem bind_eq_ok {f : α → Except ε β} {result : β} :
    x >>= f = .ok result ↔ ∃ value, x = .ok value ∧ f value = .ok result := by
  cases x <;> simp [bind, Except.bind]

theorem mapError_eq_ok {wrap : ε → ε'} {value : α} :
    x.mapError wrap = .ok value ↔ x = .ok value := by
  cases x with
  | error error => exact iff_of_false nofun nofun
  | ok other =>
    exact ⟨fun h => congrArg Except.ok (Except.ok.inj h),
      fun h => congrArg Except.ok (Except.ok.inj h)⟩

/-- The error of a computation, if it has one. -/
def error? : Except ε α → Option ε
  | .ok _ => none
  | .error error => some error

theorem error?_eq_some {error : ε} : error? x = some error ↔ x = .error error := by
  cases x <;> simp [error?]

/-- A computation of two parts has the error of the first one or else that of the second, if this
does not depend on what the first one gives. -/
theorem error?_bind {f : α → Except ε β} {later : Option ε}
    (h : ∀ value, error? (f value) = later) : error? (x >>= f) = (error? x).or later := by
  cases x with
  | ok value => exact h value
  | error error => rfl

/-- A second part that always succeeds does not touch the error of the first one. -/
theorem error?_bind_of_none {f : α → Except ε β} (h : ∀ value, error? (f value) = none) :
    error? (x >>= f) = error? x :=
  (error?_bind h).trans Option.or_none

end MibDrivers
