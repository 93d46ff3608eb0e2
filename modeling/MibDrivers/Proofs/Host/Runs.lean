import MibDrivers.Host.Tree

/-!
# Runs that only read

A run on a host may ask what there is, run programs and write files. If it does not write, it
leaves the host as it is, and so does every run that is made of such runs. What such a run ends
with is the same on two hosts if this is so for its parts.

## Main definitions

* `TreeHost.perform` — what a run on a host ends with
* `TreeHost.ReadsOnly` — a run that leaves every host as it is
* `TreeHost.Alike` — a run that ends with the same on two hosts

## Main results

* `TreeHost.perform_bind` — what a run of two parts ends with
* `TreeHost.ReadsOnly.bind`, `TreeHost.Alike.bind` — a run of two parts is what its parts are
-/

namespace MibDrivers

namespace TreeHost

variable {ε ε' α β : Type} {host : TreeHost}

/-- What a run on a host ends with, and the host afterwards. -/
def perform (host : TreeHost) (run : ExceptT ε (StateM TreeHost) α) : Except ε α × TreeHost :=
  StateT.run (ExceptT.run run) host

theorem perform_bind (host : TreeHost) (run : ExceptT ε (StateM TreeHost) α)
    (next : α → ExceptT ε (StateM TreeHost) β) :
    host.perform (run >>= next) = match host.perform run with
      | (.ok value, after) => after.perform (next value)
      | (.error error, after) => (.error error, after) := by
  unfold perform ExceptT.run StateT.run
  simp only [bind, ExceptT.bind, ExceptT.mk, StateT.bind, ExceptT.bindCont]
  cases run host with
  | mk result after => cases result <;> rfl

/-- What a run of two parts ends with that cannot fail, if it is known what the first part ends
with. -/
theorem run_bind_of_run_eq {run : StateM TreeHost α} {after : TreeHost} {value : α}
    (h : run.run host = (value, after)) (next : α → StateM TreeHost β) :
    (run >>= next).run host = (next value).run after := by
  rw [StateT.run_bind, h]
  rfl

theorem perform_adapt (host : TreeHost) (run : ExceptT ε (StateM TreeHost) α) (wrap : ε → ε') :
    host.perform (run.adapt wrap) = ((host.perform run).1.mapError wrap, (host.perform run).2) :=
  rfl

/-! ### Reading only -/

/-- The run leaves every host as it is. -/
def ReadsOnly (run : ExceptT ε (StateM TreeHost) α) : Prop :=
  ∀ host : TreeHost, (host.perform run).2 = host

variable {run : ExceptT ε (StateM TreeHost) α} {next : α → ExceptT ε (StateM TreeHost) β}

theorem ReadsOnly.perform_eq (h : ReadsOnly run) (host : TreeHost) :
    host.perform run = ((host.perform run).1, host) :=
  Prod.ext rfl (h host)

theorem ReadsOnly.pure (value : α) :
    ReadsOnly (Pure.pure value : ExceptT ε (StateM TreeHost) α) :=
  fun _ => rfl

theorem ReadsOnly.throw (error : ε) :
    ReadsOnly (MonadExcept.throw error : ExceptT ε (StateM TreeHost) α) :=
  fun _ => rfl

theorem ReadsOnly.ofExcept (result : Except ε α) :
    ReadsOnly (ExceptT.mk (Pure.pure result) : ExceptT ε (StateM TreeHost) α) :=
  fun _ => rfl

theorem ReadsOnly.hasPath (path : String) :
    ReadsOnly (Host.hasPath path : ExceptT ε (StateM TreeHost) Bool) :=
  fun _ => rfl

theorem ReadsOnly.readText (path : String) :
    ReadsOnly (Host.readText path : ExceptT ε (StateM TreeHost) (Except String String)) :=
  fun _ => rfl

theorem ReadsOnly.runProgram (program : String) (args : List String) :
    ReadsOnly
      (Host.runProgram program args : ExceptT ε (StateM TreeHost) (Option ProgramOutput)) :=
  fun _ => rfl

theorem ReadsOnly.accountHome :
    ReadsOnly (Host.accountHome : ExceptT ε (StateM TreeHost) (Option String)) :=
  fun _ => rfl

theorem ReadsOnly.bind (hrun : ReadsOnly run) (hnext : ∀ value, ReadsOnly (next value)) :
    ReadsOnly (run >>= next) := by
  intro host
  rw [perform_bind, hrun.perform_eq]
  cases (host.perform run).1 with
  | error error => rfl
  | ok value => exact hnext value host

/-- If a run of two parts succeeds, so do the parts. -/
theorem ReadsOnly.exists_of_bind {result : β} (hreads : ReadsOnly run)
    (h : (host.perform (run >>= next)).1 = .ok result) :
    ∃ value, (host.perform run).1 = .ok value ∧ (host.perform (next value)).1 = .ok result := by
  rw [perform_bind, hreads.perform_eq] at h
  cases hrun : (host.perform run).1 with
  | error error =>
    rw [hrun] at h
    cases h
  | ok value =>
    rw [hrun] at h
    exact ⟨value, rfl, h⟩

/-! ### Two hosts -/

/-- The run ends with the same on both hosts. -/
def Alike (first second : TreeHost) (run : ExceptT ε (StateM TreeHost) α) : Prop :=
  (first.perform run).1 = (second.perform run).1

variable {first second : TreeHost}

/-- A run that does not ask its host ends with the same on all hosts. -/
theorem Alike.ofExcept (result : Except ε α) :
    Alike first second (ExceptT.mk (pure result) : ExceptT ε (StateM TreeHost) α) :=
  rfl

theorem Alike.bind (hreads : ReadsOnly run) (hrun : Alike first second run)
    (hnext : ∀ value, Alike first second (next value)) : Alike first second (run >>= next) := by
  rw [Alike, perform_bind, perform_bind, hreads.perform_eq first, hreads.perform_eq second,
    show (first.perform run).1 = _ from hrun]
  cases (second.perform run).1 with
  | error error => rfl
  | ok value => exact hnext value

end TreeHost

end MibDrivers
