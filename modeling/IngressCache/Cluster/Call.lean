import IngressCache.Failure
import IngressCache.Json.Reader
import IngressCache.Object.Lister

/-!
# Calls of the cluster API

The few calls that the controller makes itself: writes of secrets and config maps, and the
reading of single pods. A write replaces an object that the lister knows and creates any other.
-/

namespace IngressCache

universe u

/-! ### Calls -/

inductive Write (α : Type u)
  | create (o : α)
  | update (o : α)
  deriving DecidableEq

def Write.object {α : Type u} : Write α → α
  | create o | update o => o

/-- The write that brings an object to the server: it replaces an object that the lister knows, in
the version that the lister knows. -/
def Write.plan {α : Type} [ClusterObject α] (l : Lister α) (o : α) : Write α :=
  match l.find? (ClusterObject.metadata o).key with
  | some known => .update (withVersion o (version? known))
  | none => .create o

inductive Request
  | secret (w : Write Secret)
  | configMap (w : Write ConfigMap)
  | pod (key : Key)
  deriving DecidableEq

def fitsPath (s : String) : Bool :=
  s.toList.all fun c => ' ' < c && c ∉ ['<', '>', '\x60']

/-- True for a write that can be sent: an object that is replaced has a name. -/
def Write.isSendable {α : Type} [ClusterObject α] (w : Write α) : Bool :=
  let m := ClusterObject.metadata w.object
  match w with
  | create _ => fitsPath m.nsOrEmpty
  | update _ => fitsPath m.nsOrEmpty && m.nameOrEmpty ≠ "" && fitsPath m.nameOrEmpty

def Request.isSendable : Request → Bool
  | secret w => w.isSendable
  | configMap w => w.isSendable
  | pod key => fitsPath key.ns && key.name ≠ "" && fitsPath key.name

/-! ### Answers -/

/-- The body of an answer that is taken for a write: the object as it was sent, or an object
without fields. -/
inductive Reply
  | echo
  | bare
  deriving DecidableEq, Repr

inductive Disturbance
  | status (code : Nat) (reason message : String)
  | raw (code : Nat) (body : String)
  | drop
  deriving DecidableEq, Repr

namespace Disturbance

def isError (code : Nat) : Bool :=
  400 ≤ code && code < 600

structure StatusDraft where
  status : Option String
  message : Option String
  reason : Option String
  code : Option UInt64

def statusFormat : Json.Format StatusDraft ApiFault where
  typeName := "ErrorResponse"
  fields := [
    ⟨"status", true, fun d => d.status.isSome,
      fun d => (Json.Reader.text "a string").map fun v => { d with status := some v }⟩,
    ⟨"message", false, fun d => d.message.isSome,
      fun d => (Json.Reader.text "a string").map fun v => { d with message := some v }⟩,
    ⟨"reason", false, fun d => d.reason.isSome,
      fun d => (Json.Reader.text "a string").map fun v => { d with reason := some v }⟩,
    ⟨"code", true, fun d => d.code.isSome,
      fun d => Json.Reader.natural64.map fun v => { d with code := some v }⟩]
  empty := ⟨none, none, none, none⟩
  finish d := do
    let _ ← Json.required "status" d.status
    let code ← Json.required "code" d.code
    if code < 65536 then return .status code.toNat (d.reason.getD "") (d.message.getD "")
    else .error (.wrongValue (.natural code.toNat) "u16")

/-- The fault of an answer with an error code: what its body says, or the body itself. -/
def errorOf (code : Nat) (body : String) : ApiFault :=
  match Json.decode statusFormat.read body with
  | .ok fault => fault
  | .error _ => .status code "Failed to parse error data" (Text.quoted body)

def isObject (body : String) : Bool :=
  match Json.skipBlanks body.toList with
  | '\x7b' :: rest =>
    match Json.skipValue ('\x7b' :: rest) with
    | .ok rest => Json.skipBlanks rest == []
    | .error _ => false
  | _ => false

def outcome : Disturbance → Except ApiFault Reply
  | status code reason message =>
    if isError code then .error (.status code reason message) else .error .body
  | raw code body =>
    if isError code then .error (errorOf code body)
    else if isObject body then .ok .bare
    else .error .body
  | drop => .error .connection

end Disturbance

/-! ### The server -/

/-- What the server will answer: disturbances first, one for each call, then what was asked. -/
structure Cluster where
  disturbances : List Disturbance
  pods : List Pod
  deriving DecidableEq

namespace Cluster

def answer (c : Cluster) : Cluster × Except ApiFault Reply :=
  match c.disturbances with
  | [] => (c, .ok .echo)
  | d :: ds => ({ c with disturbances := ds }, d.outcome)

def reasonNotFound : String :=
  "NotFound"

def findPod (c : Cluster) (key : Key) : Except ApiFault Pod :=
  match c.pods.find? fun p => p.metadata.key = key with
  | some p => .ok p
  | none => .error (.status 404 reasonNotFound "")

def barePod : Pod :=
  ⟨⟨none, none, none, none, none, none, false⟩, none⟩

def podOf (c : Cluster) (key : Key) : Reply → Except ApiFault Pod
  | .echo => c.findPod key
  | .bare => .ok barePod

/-- A pod from the server; one that is not there is no fault of the call. -/
def pod? (result : Except ApiFault Pod) : Except ApiFault (Option Pod) :=
  match result with
  | .ok p => .ok (some p)
  | .error (.status code reason message) =>
    if reason = reasonNotFound then .ok none else .error (.status code reason message)
  | .error f => .error f

def podOrFailure (key : Key) (result : Except ApiFault Pod) : Except Failure Pod :=
  match pod? result with
  | .ok (some p) => .ok p
  | .ok none => .error (.notFound .pod key.text)
  | .error f => .error (.ofApi .pod key.path f)

end Cluster

end IngressCache
