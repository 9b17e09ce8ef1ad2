import IngressCache.Change.Basic
import IngressCache.Change.Pending
import IngressCache.Object.IngressClass
import IngressCache.Object.Lister

/-!
# Reports of a watch

What a step of a watch says about the objects that a lister had before it, and which of that is
handed on: changes of ingresses as far as they belong to the controller, changes of config maps
as far as they are tracked, and every other change.
-/

namespace IngressCache

universe u

inductive Report (α : Type u)
  | change (c : Change α)
  | resync
  | nothing
  deriving DecidableEq

/-- The report of a step, with the state before it as the lister has it. An object that the lister
does not have is deleted as the step shows it. -/
def Lister.report {α : Type} [ClusterObject α] (l : Lister α) : WatchEvent α → Report α
  | .apply o => .change ⟨l.get? (identity o), some o⟩
  | .delete o => .change ⟨some ((l.get? (identity o)).getD o), none⟩
  | .init | .initApply _ => .nothing
  | .initDone => .resync

/-! ### Filters -/

/-- The change as far as it concerns ingresses of the controller. -/
def ClassFilter.change? (f : ClassFilter) (c : Change Ingress) : Option (Change Ingress) :=
  let c := c.filter f.accepts
  if c.old.isNone && c.current.isNone then none else some c

def TrackedKeys.change? (t : TrackedKeys) (c : Change ConfigMap) : Option (Change ConfigMap) :=
  if c.latest.any fun m => t.tracks (objectKey m) then some c else none

/-- The event that a report of the watch of a kind is handed on as. -/
def Report.event? (f : ClassFilter) (t : TrackedKeys) : (k : Kind) → Report k.Object → Option Event
  | _, .nothing => none
  | _, .resync => some .resync
  | .ingress, .change c => (f.change? c).map .ingress
  | .configMap, .change c => (t.change? c).map .configMap
  | .service, .change c => some (.service c)
  | .endpoints, .change c => some (.endpoints c)
  | .secret, .change c => some (.secret c)
  | .pod, .change c => some (.pod c)

end IngressCache
