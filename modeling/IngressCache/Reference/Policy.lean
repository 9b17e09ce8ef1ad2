import IngressCache.Failure

/-!
# Access to secrets of other namespaces

An object may name secrets of its own namespace, and of others only where that is allowed. An
empty default namespace marks a reference of the controller itself, which is not restricted.
-/

namespace IngressCache

structure Policy where
  allowCross : Bool
  deriving DecidableEq, Repr

/-- The secret that a reference names on behalf of an object in the default namespace `d`. -/
def Policy.resolve (p : Policy) (d reference : String) : Except Failure Key := do
  let key ← Key.require reference
  if d = "" then .ok key
  else if key.ns = "" then .ok { key with ns := d }
  else if p.allowCross ∨ key.ns = d then .ok key
  else .error (.denied reference d key.ns)

end IngressCache
