import IngressCache.Collections.Table
import IngressCache.Object.Basic

/-!
# Listers

The objects of one kind as the watch last saw them, one for each identity. A new listing is
collected apart and takes the place of the content when it is complete.
-/

namespace IngressCache

/-- The known objects of one kind, and the objects of a listing under way. -/
structure Lister (α : Type) where
  objects : Table Identity α
  incoming : Table Identity α

inductive WatchEvent (α : Type)
  | apply (o : α)
  | delete (o : α)
  | init
  | initApply (o : α)
  | initDone
  deriving DecidableEq

namespace Lister

variable {α : Type}

def empty : Lister α :=
  ⟨.empty, .empty⟩

def stored? (l : Lister α) (i : Identity) : Option α :=
  l.objects.get? i

/-- The object that an identity finds: an object of no namespace is found in every namespace
that has none of that name. -/
def get? (l : Lister α) (i : Identity) : Option α :=
  l.stored? i <|> l.stored? { i with ns := none }

theorem get?_eq_stored? {l : Lister α} {i : Identity}
    (h : l.stored? { i with ns := none } = none) : l.get? i = l.stored? i := by
  unfold get?
  rw [h]
  cases l.stored? i <;> rfl

def find? (l : Lister α) (k : Key) : Option α :=
  l.get? k.identity

def toList (l : Lister α) : List α :=
  l.objects.values

variable [ClusterObject α]

def step (l : Lister α) : WatchEvent α → Lister α
  | .apply o => { l with objects := l.objects.insert (identity o) o }
  | .delete o => { l with objects := l.objects.erase (identity o) }
  | .init => { l with incoming := .empty }
  | .initApply o => { l with incoming := l.incoming.insert (identity o) o }
  | .initDone => ⟨l.incoming, .empty⟩

@[simp] theorem stored?_step_apply_self (l : Lister α) (o : α) :
    (l.step (.apply o)).stored? (identity o) = some o :=
  Table.get?_insert_self _ _ _

theorem stored?_step_apply_ne (l : Lister α) {o : α} {i : Identity} (h : i ≠ identity o) :
    (l.step (.apply o)).stored? i = l.stored? i :=
  Table.get?_insert_ne h _ _

@[simp] theorem stored?_step_delete_self (l : Lister α) (o : α) :
    (l.step (.delete o)).stored? (identity o) = none :=
  Table.get?_erase_self _ _

theorem stored?_step_delete_ne (l : Lister α) {o : α} {i : Identity} (h : i ≠ identity o) :
    (l.step (.delete o)).stored? i = l.stored? i :=
  Table.get?_erase_ne h _

end Lister

/-- The listers of all kinds. There is none of pods when their watch is off. -/
structure Listers where
  ingresses : Lister Ingress
  services : Lister Service
  endpoints : Lister Endpoints
  secrets : Lister Secret
  configMaps : Lister ConfigMap
  pods : Option (Lister Pod)

def Listers.empty (withPods : Bool) : Listers :=
  ⟨.empty, .empty, .empty, .empty, .empty, if withPods then some .empty else none⟩

def Listers.of (l : Listers) : (k : Kind) → Option (Lister k.Object)
  | .ingress => some l.ingresses
  | .service => some l.services
  | .endpoints => some l.endpoints
  | .secret => some l.secrets
  | .configMap => some l.configMaps
  | .pod => l.pods

def Listers.set (l : Listers) : (k : Kind) → Lister k.Object → Listers
  | .ingress, new => { l with ingresses := new }
  | .service, new => { l with services := new }
  | .endpoints, new => { l with endpoints := new }
  | .secret, new => { l with secrets := new }
  | .configMap, new => { l with configMaps := new }
  | .pod, new => { l with pods := some new }

theorem Listers.of_set (l : Listers) (k : Kind) (new : Lister k.Object) :
    (l.set k new).of k = some new := by
  cases k <;> rfl

/-- The listers after a step of the watch of a kind. Without a lister the step goes nowhere. -/
def Listers.step (l : Listers) (k : Kind) (e : WatchEvent k.Object) : Listers :=
  match l.of k with
  | some lister => l.set k (lister.step e)
  | none => l

/-! ### Selection by labels -/

def labelsMatch (labels : Option Texts) (selector : Texts) : Bool :=
  selector.toList.all fun (k, v) => labels.bind (·.get? k) == some v

/-- The objects of a namespace whose labels contain every pair of the selector. -/
def Lister.select {α : Type} [ClusterObject α] (l : Lister α) (ns : String) (selector : Texts) :
    List α :=
  l.toList.filter fun o =>
    (ClusterObject.metadata o).ns == some ns &&
      labelsMatch (ClusterObject.metadata o).labels selector

end IngressCache
