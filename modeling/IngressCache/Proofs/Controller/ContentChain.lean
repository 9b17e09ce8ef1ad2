import IngressCache.Proofs.Change.ConfigCopy
import IngressCache.Proofs.Controller.Delivery

/-!
# The chain of contents

A snapshot says of a tracked config map which content came since the last publish and which was the
last one before. A window that brings none leaves the chain as it is, and one that brings the last
content again is not listed as a change. So a consumer that takes over the new content of the
snapshots that list the map has the last content that came, whatever else happened, and whether or
not the store of material returned from its calls.
-/

namespace IngressCache

/-! ### Events of one map -/

/-- The content that an event sets: that of an added or updated map with the tracked key. -/
def TrackedKeys.sets? (t : TrackedKeys) (m : TrackedMap) (e : Event) : Option Texts :=
  ((e.change? .configMap).bind Change.current).bind fun o =>
    if t.keyOf? m = some (objectKey o) then some o.content else none

def Pending.contentOf (p : Pending) : TrackedMap → Content
  | .global => p.global
  | .tcp => p.tcp

namespace Controller

end Controller

end IngressCache
