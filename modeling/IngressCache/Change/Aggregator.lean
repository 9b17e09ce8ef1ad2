import IngressCache.Change.Pending
import IngressCache.Change.Signals
import IngressCache.Warning

/-!
# The change aggregator

Buffers events between two publishes. The first event that is of interest after a publish starts
one timer, whose signal tells the consumer to publish; later events of the same burst do not
move it.
-/

namespace IngressCache

structure Aggregator where
  tracked : TrackedKeys
  wait : Nat
  pending : Pending
  signals : Signals
  poisoned : Bool
  deriving DecidableEq

namespace Aggregator

def start (tracked : TrackedKeys) (wait : Nat) : Aggregator :=
  ⟨tracked, wait, .empty, .start, false⟩

/-- The aggregator after an event; `none` when the event is of no interest. -/
def receive (a : Aggregator) (e : Event) : Option Aggregator :=
  (a.pending.notify a.tracked e).map fun (pending, arms) =>
    { a with
      pending := pending
      signals := if arms then a.signals.arm a.wait else a.signals }

/-- The aggregator after an event that the store of material did not return from: nothing of the
event is kept. -/
def poison (a : Aggregator) : Aggregator :=
  { a with poisoned := true }

/-- A publish: everything buffered, and the aggregator with empty buffers. -/
def publish (a : Aggregator) : Snapshot × Aggregator :=
  let (snapshot, pending) := a.pending.publish
  (snapshot, { a with pending := pending })

def lockWarnings (a : Aggregator) (access : Access) : List Warning :=
  if a.poisoned then [.poisonedLock access] else []

theorem receive_eq_none_iff (a : Aggregator) (e : Event) :
    a.receive e = none ↔ a.pending.buffer a.tracked e = none := by
  simp [receive, Pending.notify]

end Aggregator

end IngressCache
