/-!
# Tracking targets

What is built from cluster objects and has to be built again when one of them changes.
-/

namespace IngressCache

inductive Target
  | hostname (host : String)
  | backend (name : String)
  | userlist (name : String)
  | global
  deriving DecidableEq, Repr

def Target.text : Target → String
  | .hostname h => "hostname:" ++ h
  | .backend b => "backend:" ++ b
  | .userlist u => "userlist:" ++ u
  | .global => "global"

end IngressCache
