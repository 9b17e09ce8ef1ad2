/-!
# Kinds of cluster objects
-/

namespace IngressCache

inductive Kind
  | ingress
  | service
  | endpoints
  | secret
  | configMap
  | pod
  deriving DecidableEq, Repr

namespace Kind

def all : List Kind :=
  [.ingress, .service, .endpoints, .secret, .configMap, .pod]

def label : Kind → String
  | .ingress => "ingress"
  | .service => "service"
  | .endpoints => "endpoint"
  | .secret => "secret"
  | .configMap => "configmap"
  | .pod => "pod"

def typeName : Kind → String
  | .ingress => "Ingress"
  | .service => "Service"
  | .endpoints => "Endpoints"
  | .secret => "Secret"
  | .configMap => "ConfigMap"
  | .pod => "Pod"

end Kind

end IngressCache
