import IngressCache.Object.Lister

/-!
# Watch streams

How the watch of one kind follows the server. It lists all objects, then reads the lines of a
stream. After a fault it rests; a fault that loses the place in the stream makes it list again,
after any other fault it goes on reading where it was. A stream that the server closes is opened
again.
-/

namespace IngressCache

/-! ### The server's side -/

inductive Line (α : Type)
  | applied (o : α)
  | deleted (o : α)
  | failed (code : Nat)
  | unreadable
  deriving DecidableEq

structure Source (α : Type) where
  objects : List α
  failures : Nat
  deriving DecidableEq

/-! ### The watch -/

inductive Phase
  | listing
  | reading
  | stopped
  deriving DecidableEq, Repr

structure Stream (α : Type) where
  phase : Phase
  resume : Option Nat
  faults : Nat
  isOpen : Bool
  lines : List (Line α)
  deriving DecidableEq

inductive Notice (α : Type)
  | listed
  | step (e : WatchEvent α)
  | fault
  deriving DecidableEq

/-- The error code for a place in the stream that the server does not have any more. -/
def goneCode : Nat := 410

/-- How long a watch rests after a fault that came after `faults` others, in milliseconds. -/
def restAfter (faults : Nat) : Nat :=
  min (800 * Nat.pow 2 faults) 30000

/-- True for an object whose version tells the place in the stream. -/
def hasVersion {α : Type} [ClusterObject α] (o : α) : Bool :=
  (version? o).any (· ≠ "")

inductive Reading (α : Type)
  | step (e : WatchEvent α)
  /-- The line is a fault; `loses` if the place in the stream is lost. -/
  | fault (loses : Bool)
  deriving DecidableEq

def Line.read {α : Type} [ClusterObject α] : Line α → Reading α
  | .applied o => if hasVersion o then .step (.apply o) else .fault true
  | .deleted o => if hasVersion o then .step (.delete o) else .fault true
  | .failed code => .fault (code == goneCode)
  | .unreadable => .fault false

/-- The steps of lines up to the first fault, and that fault with the lines after it. -/
def readLines {α : Type} [ClusterObject α] :
    List (Line α) → List (WatchEvent α) × Option (Bool × List (Line α))
  | [] => ([], none)
  | l :: ls =>
    match l.read with
    | .step e =>
      let (es, stop) := readLines ls
      (e :: es, stop)
    | .fault loses => ([], some (loses, ls))

def listing {α : Type} (objects : List α) : List (WatchEvent α) :=
  .init :: objects.map .initApply ++ [.initDone]

namespace Stream

variable {α : Type}

def start : Stream α :=
  ⟨.listing, none, 0, false, []⟩

def rest (s : Stream α) (now : Nat) : Stream α :=
  { s with resume := some (now + restAfter s.faults), faults := s.faults + 1 }

def list (s : Stream α) (source : Source α) (now : Nat) :
    Stream α × Source α × List (Notice α) :=
  let s := { s with resume := none, faults := 0 }
  match source.failures with
  | 0 =>
    (⟨.reading, none, 0, true, []⟩, source,
      .listed :: (listing source.objects).map .step)
  | n + 1 => (s.rest now, { source with failures := n }, [.listed, .fault])

def read [ClusterObject α] (s : Stream α) (now : Nat) : Stream α × List (Notice α) :=
  match readLines s.lines with
  | (es, none) =>
    ({ s with
        resume := none
        faults := if es.isEmpty then s.faults else 0
        isOpen := true
        lines := [] }, es.map .step)
  | (es, some (loses, lines)) =>
    let s := { s with faults := if es.isEmpty then s.faults else 0 }
    let s := if loses then { s with phase := .listing, isOpen := false, lines := [] }
      else { s with lines := lines }
    (s.rest now, es.map .step ++ [.fault])

def poll [ClusterObject α] (s : Stream α) (source : Source α) (now : Nat) :
    Stream α × Source α × List (Notice α) :=
  if s.resume.any (now < ·) then (s, source, [])
  else
    match s.phase with
    | .listing => s.list source now
    | .reading =>
      let (s, notices) := s.read now
      (s, source, notices)
    | .stopped => (s, source, [])

def send (s : Stream α) (l : Line α) : Stream α :=
  if s.isOpen then { s with lines := s.lines ++ [l] } else s

def close (s : Stream α) : Stream α :=
  { s with isOpen := false }

def stop (s : Stream α) : Stream α :=
  ⟨.stopped, none, s.faults, false, []⟩

end Stream

structure Watch (α : Type) where
  stream : Stream α
  source : Source α
  deriving DecidableEq

def Watch.of {α : Type} (objects : List α) : Watch α :=
  ⟨.start, ⟨objects, 0⟩⟩

/-! ### All kinds -/

structure Watches where
  ingresses : Watch Ingress
  services : Watch Service
  endpoints : Watch Endpoints
  secrets : Watch Secret
  configMaps : Watch ConfigMap
  pods : Option (Watch Pod)

namespace Watches

def of (w : Watches) : (k : Kind) → Option (Watch k.Object)
  | .ingress => some w.ingresses
  | .service => some w.services
  | .endpoints => some w.endpoints
  | .secret => some w.secrets
  | .configMap => some w.configMaps
  | .pod => w.pods

def set (w : Watches) : (k : Kind) → Watch k.Object → Watches
  | .ingress, new => { w with ingresses := new }
  | .service, new => { w with services := new }
  | .endpoints, new => { w with endpoints := new }
  | .secret, new => { w with secrets := new }
  | .configMap, new => { w with configMaps := new }
  | .pod, new => { w with pods := some new }

def next? (w : Watches) : Option Nat :=
  (Kind.all.filterMap fun k => (w.of k).bind fun x => x.stream.resume).min?

end Watches

/-- Where the server lists the objects of a kind. Config maps are watched everywhere, because the
tracked ones may lie outside the watched namespace. -/
def listPath (ns : Option String) (k : Kind) : String :=
  let scope := match ns with
    | some n => "/namespaces/" ++ n
    | none => ""
  match k with
  | .ingress => "/apis/networking.k8s.io/v1" ++ scope ++ "/ingresses"
  | .service => "/api/v1" ++ scope ++ "/services"
  | .endpoints => "/api/v1" ++ scope ++ "/endpoints"
  | .secret => "/api/v1" ++ scope ++ "/secrets"
  | .configMap => "/api/v1/configmaps"
  | .pod => "/api/v1" ++ scope ++ "/pods"

end IngressCache
