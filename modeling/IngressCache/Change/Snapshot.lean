import IngressCache.Object.Basic

/-!
# Snapshots

Everything that changed between two publishes.
-/

namespace IngressCache

/-- The content of a tracked config map: as of the last publish, and received since. -/
structure Content where
  cur : Option Texts
  new : Option Texts
  deriving DecidableEq

namespace Content

def changed (c : Content) : Bool :=
  c.new.isSome && c.cur != c.new

def promote (c : Content) : Content :=
  ⟨c.new <|> c.cur, none⟩

end Content

/-- Deleted, updated and added objects of one kind, each in the order of arrival. -/
structure Delta (α : Type) where
  del : List α
  upd : List α
  add : List α
  deriving DecidableEq

def Delta.empty {α : Type} : Delta α :=
  ⟨[], [], []⟩

structure Snapshot where
  global : Content
  tcp : Content
  ingresses : Delta Ingress
  services : Delta Service
  secrets : Delta Secret
  endpoints : List Endpoints
  pods : List Pod
  objects : List String
  fullSync : Bool
  deriving DecidableEq

def Snapshot.isEmpty (s : Snapshot) : Bool :=
  s.objects.isEmpty

def describe {α : Type} [ClusterObject α] (action : String) (objects : List α) : List String :=
  objects.map fun o =>
    action ++ "/" ++ (ClusterObject.kind α).label ++ ":" ++ objectKey o

/-- The descriptors of one kind: deletions, then updates, then additions. -/
def Delta.describe {α : Type} [ClusterObject α] (d : Delta α) : List String :=
  IngressCache.describe "del" d.del ++ IngressCache.describe "update" d.upd ++
    IngressCache.describe "add" d.add

end IngressCache
