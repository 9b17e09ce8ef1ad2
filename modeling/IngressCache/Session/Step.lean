import IngressCache.Controller
import IngressCache.Watch.Stream

/-!
# Steps of a session

What can be done to a controller and to the cluster that it talks to, one step at a time, and
what each step answers.
-/

namespace IngressCache.Session

/-- What somebody else does to a file of the directory of material. -/
inductive Tampering
  | remove
  | overwrite
  | toFolder
  | removeFolder
  deriving DecidableEq, Repr

inductive Search
  | ingress (key : String)
  | ingresses
  | service (key : String)
  | secret (key : String)
  | configMap (key : String)
  | endpoints (s : Service)

inductive Supply
  | setList (k : Kind) (objects : List k.Object)
  | failLists (k : Kind) (times : Nat)
  | line (k : Kind) (l : Line k.Object)
  | close (k : Kind)

inductive AcmeStep
  | accountKey
  | setToken (domain uri token : String)
  | token (domain uri : String)
  | issued (name : String)
  | setIssued (name : String) (certificate privateKey : Bytes)

inductive Step
  /-- A watch step reaches the lister of its kind, and nobody else. -/
  | lister (k : Kind) (e : WatchEvent k.Object)
  | listed (k : Kind)
  | notify (e : Event)
  | publish
  | needFullSync
  | isTracked (m : ConfigMap)
  | advance (millis : Nat)
  /-- The consumer waits for a signal, but no longer than that many milliseconds. -/
  | wait (millis : Nat)
  | certificate (key : Key)
  | storeCall (call : StoreCall)
  | dhParameters (name : String) (content : Bytes)
  | files
  | tamper (file : String) (how : Tampering)
  | tls (q : Query)
  | ca (q : Query)
  | dh (q : Query)
  | content (q : Query) (name : String)
  | search (s : Search)
  | pod (key : String)
  | ownPod
  | terminating (s : Service) (target : Target)
  | putSecret (s : Secret)
  | putConfigMap (m : ConfigMap)
  | edges (target : Target)
  | targetsFor (kind : Kind) (id : String)
  | clearTarget (target : Target)
  | edgeCount
  | acme (s : AcmeStep)
  | disturb (d : Disturbance)
  | supply (s : Supply)
  | metrics

/-- An account key: one whose numbers are known, or one that was generated here. -/
inductive AccountKey
  | known (k : RsaKey)
  | generated
  deriving DecidableEq, Repr

inductive Answer
  | done
  | flag (b : Bool)
  | failed (f : Failure)
  | badKey (f : KeyFault)
  | broken
  | object (k : Kind) (o : k.Object)
  | objects (k : Kind) (os : List k.Object)
  | snapshot (s : Snapshot)
  | signals (count : Nat)
  | material (m : Material)
  | file (f : FileHandle)
  | bundle (b : BundleHandle)
  | authorities (ca : FileHandle) (crl : Option FileHandle)
  | bytes (b : Bytes)
  | directory (d : Directory)
  | key (k : Key)
  | edges (es : List Edge)
  | targets (ts : List Target)
  | count (n : Nat)
  | edgeCount (n : Nat)
  | text (s : String)
  | accountKey (k : AccountKey)
  | issued (c : IssuedCertificate)
  | metrics (m : Metrics)

def Answer.ofResult {α : Type} (write : α → Answer) : Except Failure α → Answer
  | .ok a => write a
  | .error f => .failed f

end IngressCache.Session
