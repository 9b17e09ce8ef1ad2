import IngressCache.Collections.Dict
import IngressCache.Encoding.Bytes
import IngressCache.Object.Key
import IngressCache.Object.Kind

/-!
# Cluster objects

The parts of cluster objects that the cache looks at. Optional parts may be absent; an absent
namespace and an empty one are different objects, with the same written key.
-/

namespace IngressCache

/-- Texts by name: labels, annotations, the content of a config map. -/
abbrev Texts := Dict String

structure Metadata where
  ns : Option String
  name : Option String
  generateName : Option String
  version : Option String
  labels : Option Texts
  annotations : Option Texts
  deleting : Bool
  deriving DecidableEq

def Metadata.ofKey (k : Key) : Metadata :=
  ⟨some k.ns, some k.name, none, none, none, none, false⟩

namespace Metadata

def nsOrEmpty (m : Metadata) : String :=
  m.ns.getD ""

/-- The name, else the beginning of a generated one, else nothing. -/
def nameOrEmpty (m : Metadata) : String :=
  (m.name <|> m.generateName).getD ""

def key (m : Metadata) : Key :=
  ⟨m.nsOrEmpty, m.nameOrEmpty⟩

theorem key_ofKey (k : Key) : (ofKey k).key = k := rfl

end Metadata

/-- What tells the objects of one kind apart in a lister: the namespace may be absent. -/
structure Identity where
  ns : Option String
  name : String
  deriving DecidableEq, Repr

def Key.identity (k : Key) : Identity :=
  ⟨some k.ns, k.name⟩

/-! ### Kinds -/

structure IngressSpec where
  className : Option String
  deriving DecidableEq

structure Ingress where
  metadata : Metadata
  spec : Option IngressSpec
  deriving DecidableEq

structure ServiceSpec where
  selector : Option Texts
  deriving DecidableEq

structure Service where
  metadata : Metadata
  spec : Option ServiceSpec
  deriving DecidableEq

structure Endpoints where
  metadata : Metadata
  deriving DecidableEq

structure Secret where
  metadata : Metadata
  data : Option (Dict Bytes)
  type : Option String
  deriving DecidableEq

structure ConfigMap where
  metadata : Metadata
  data : Option Texts
  deriving DecidableEq

structure PodStatus where
  reason : Option String
  ip : Option String
  deriving DecidableEq

structure Pod where
  metadata : Metadata
  status : Option PodStatus
  deriving DecidableEq

class ClusterObject (α : Type) where
  kind : Kind
  metadata : α → Metadata
  withMetadata : α → Metadata → α

instance : ClusterObject Ingress := ⟨.ingress, Ingress.metadata, fun o m => { o with metadata := m }⟩
instance : ClusterObject Service := ⟨.service, Service.metadata, fun o m => { o with metadata := m }⟩
instance : ClusterObject Endpoints := ⟨.endpoints, Endpoints.metadata, fun _ m => ⟨m⟩⟩
instance : ClusterObject Secret := ⟨.secret, Secret.metadata, fun o m => { o with metadata := m }⟩
instance : ClusterObject ConfigMap :=
  ⟨.configMap, ConfigMap.metadata, fun o m => { o with metadata := m }⟩
instance : ClusterObject Pod := ⟨.pod, Pod.metadata, fun o m => { o with metadata := m }⟩

@[reducible] def Kind.Object : Kind → Type
  | .ingress => Ingress
  | .service => Service
  | .endpoints => Endpoints
  | .secret => Secret
  | .configMap => ConfigMap
  | .pod => Pod

instance instClusterObjectOfKind : (k : Kind) → ClusterObject k.Object
  | .ingress => inferInstanceAs (ClusterObject Ingress)
  | .service => inferInstanceAs (ClusterObject Service)
  | .endpoints => inferInstanceAs (ClusterObject Endpoints)
  | .secret => inferInstanceAs (ClusterObject Secret)
  | .configMap => inferInstanceAs (ClusterObject ConfigMap)
  | .pod => inferInstanceAs (ClusterObject Pod)

def version? {α : Type} [ClusterObject α] (o : α) : Option String :=
  (ClusterObject.metadata o).version

def withVersion {α : Type} [ClusterObject α] (o : α) (version : Option String) : α :=
  ClusterObject.withMetadata o { ClusterObject.metadata o with version := version }

def objectKey {α : Type} [ClusterObject α] (o : α) : String :=
  (ClusterObject.metadata o).key.path

def identity {α : Type} [ClusterObject α] (o : α) : Identity :=
  ⟨(ClusterObject.metadata o).ns, (ClusterObject.metadata o).name.getD ""⟩

def Secret.get? (s : Secret) (name : String) : Option Bytes :=
  s.data.bind (·.get? name)

def ConfigMap.content (c : ConfigMap) : Texts :=
  c.data.getD .empty

end IngressCache
