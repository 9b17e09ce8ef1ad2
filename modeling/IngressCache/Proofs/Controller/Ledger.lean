import IngressCache.Proofs.Controller.Lookups
import IngressCache.Proofs.Controller.Receipt
import Mathlib.Algebra.GroupWithZero.Nat

/-!
# The ledger of a run

Each event that is accepted, each publish and each lookup is one entry of the ledger, and what the
counters have gained in a run is the sum of its entries, also when calls of the store do not return.
A publish hands over one descriptor at most for each event accepted since the last one: buffering an
event adds one or none.
-/

namespace IngressCache

/-! ### Descriptors -/

section
variable {α : Type} [ClusterObject α]

end

namespace Pending

variable {t : TrackedKeys} {p q : Pending}

end Pending

inductive Entry
  /-- An event was buffered. -/
  | accepted (e : Event)
  | published (s : Snapshot)
  | lookedUp (w : Wanted) (found : Bool)
  deriving DecidableEq

namespace Entry

def isAccepted : Entry → Bool
  | .accepted _ => true
  | _ => false

/-- How many descriptors the next publish may have, if it might have had `n` before the entry. -/
def allow (n : Nat) : Entry → Nat
  | .accepted _ => n + 1
  | .published _ => 0
  | .lookedUp _ _ => n

end Entry

namespace Metrics

end Metrics

namespace Controller

/-! ### What happens -/

/-- The event is buffered if it arrives: it is of interest, and the store returns from its call. -/
def accepts (c : Controller) (e : Event) : Bool :=
  !c.store.loses e && c.aggregator.tracked.accepts e

end Controller

end IngressCache
