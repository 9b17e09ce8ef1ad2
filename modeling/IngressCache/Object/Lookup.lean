import IngressCache.Failure
import IngressCache.Object.IngressClass
import IngressCache.Object.Lister
import IngressCache.Reference.Tracker

/-!
# Looking up cluster objects

Answers from the listers: single objects by written key, the ingresses of the controller, and
the pods of a service that are about to go away.
-/

namespace IngressCache

def Lister.lookup {α : Type} [ClusterObject α] (l : Lister α) (text : String) :
    Except Failure α := do
  let key ← Key.require text
  match l.find? key with
  | some o => .ok o
  | none => .error (.notFound (ClusterObject.kind α) key.text)

/-- The ingress of a written key, if it belongs to the controller. -/
def ClassFilter.ingress (f : ClassFilter) (l : Lister Ingress) (text : String) :
    Except Failure Ingress := do
  let i ← l.lookup text
  if f.accepts i then .ok i else .error (.malformed "ingress class does not match")

def ClassFilter.ingresses (f : ClassFilter) (l : Lister Ingress) : List Ingress :=
  l.toList.filter f.accepts

/-- The endpoints of a service, which have its namespace and name. -/
def Service.endpoints (s : Service) (l : Lister Endpoints) : Except Failure Endpoints :=
  match l.find? s.metadata.key with
  | some e => .ok e
  | none => .error (.notFound .endpoints s.metadata.key.text)

/-! ### Pods of a service -/

def Service.selector (s : Service) : Texts :=
  (s.spec.bind ServiceSpec.selector).getD .empty

def nodeLost : String :=
  "NodeLost"

/-- True for a pod that is being deleted and can still be reached: it was not lost with its node
and has an address. -/
def Pod.isTerminating (p : Pod) : Bool :=
  p.metadata.deleting && p.status.bind PodStatus.reason != some nodeLost &&
    (p.status.bind PodStatus.ip).any (· ≠ "")

def Service.selectedPods (s : Service) (pods : Option (Lister Pod)) : Except Failure (List Pod) :=
  match pods with
  | some l => .ok (l.select s.metadata.nsOrEmpty s.selector)
  | none =>
    .error (.malformed "pod lister wasn't started, remove --disable-pod-list to enable it")

def Service.podDependency (s : Service) (target : Target) (p : Pod) : Dependency :=
  ⟨target, ⟨false, .pod, (Key.mk s.metadata.nsOrEmpty p.metadata.nameOrEmpty).path⟩⟩

end IngressCache
