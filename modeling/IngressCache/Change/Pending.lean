import IngressCache.Change.Basic
import IngressCache.Change.Snapshot

/-!
# Pending changes

The buffers between two publishes: which events are of interest, what is kept of them, and what
a publish hands over and leaves behind.
-/

namespace IngressCache

structure Pending where
  global : Content
  tcp : Content
  ingresses : Delta Ingress
  services : Delta Service
  secrets : Delta Secret
  endpoints : List Endpoints
  pods : List Pod
  needFullSync : Bool
  clear : Bool
  deriving DecidableEq

namespace Pending

def empty : Pending where
  global := ⟨none, none⟩
  tcp := ⟨none, none⟩
  ingresses := .empty
  services := .empty
  secrets := .empty
  endpoints := []
  pods := []
  needFullSync := false
  clear := true

def objects (p : Pending) : List String :=
  (if p.global.changed then ["update/global"] else []) ++
    (if p.tcp.changed then ["update/tcp-services"] else []) ++
    p.ingresses.describe ++ describe "update" p.endpoints ++ p.services.describe ++
    p.secrets.describe ++ describe "update" p.pods

def snapshot (p : Pending) : Snapshot where
  global := p.global
  tcp := p.tcp
  ingresses := p.ingresses
  services := p.services
  secrets := p.secrets
  endpoints := p.endpoints
  pods := p.pods
  objects := p.objects
  fullSync := p.needFullSync

/-- What is left after a publish: the contents that were handed over. -/
def published (p : Pending) : Pending :=
  { empty with global := p.global.promote, tcp := p.tcp.promote }

end Pending

/-- Buffers a classified change of one kind; `none` when the change names no object. -/
def Delta.push {α : Type} (d : Delta α) : Classified α → Option (Delta α)
  | .added o => some { d with add := d.add ++ [o] }
  | .updated _ o => some { d with upd := d.upd ++ [o] }
  | .deleted o => some { d with del := d.del ++ [o] }
  | .unclassified => none

/-- Buffers a change of a kind whose deletions are of no interest. -/
def pushCurrent {α : Type} (l : List α) : Classified α → Option (List α)
  | .added o | .updated _ o => some (l ++ [o])
  | .deleted _ => some l
  | .unclassified => none

structure TrackedKeys where
  global : Option String
  tcp : Option String
  deriving DecidableEq, Repr

def TrackedKeys.tracks (t : TrackedKeys) (key : String) : Bool :=
  t.global == some key || t.tcp == some key

/-- Buffers a change of a config map; `none` when the map is not tracked. The content of a
deleted map stays. -/
def Pending.bufferConfigMap (t : TrackedKeys) (p : Pending) (c : Change ConfigMap) :
    Option Pending :=
  match c.classify with
  | .added m | .updated _ m =>
    if t.global = some (objectKey m) then
      some { p with global := { p.global with new := some m.content } }
    else if t.tcp = some (objectKey m) then
      some { p with tcp := { p.tcp with new := some m.content } }
    else none
  | .deleted m => if t.tracks (objectKey m) then some p else none
  | .unclassified => some { p with needFullSync := true }

/-- Buffers an event; `none` when it is of no interest. -/
def Pending.buffer (t : TrackedKeys) (p : Pending) (e : Event) : Option Pending :=
  let full := { p with needFullSync := true }
  match e with
  | .ingress c =>
    match p.ingresses.push c.classify with
    | some d => some { p with ingresses := d }
    | none => some full
  | .service c =>
    match p.services.push c.classify with
    | some d => some { p with services := d }
    | none => some full
  | .secret c =>
    match p.secrets.push c.classify with
    | some d => some { p with secrets := d }
    | none => some full
  | .endpoints c =>
    match pushCurrent p.endpoints c.classify with
    | some l => some { p with endpoints := l }
    | none => some full
  | .pod c =>
    match pushCurrent p.pods c.classify with
    | some l => some { p with pods := l }
    | none => some full
  | .configMap c => p.bufferConfigMap t c
  | .resync => some full

/-- An event that is of interest, once it is buffered, and whether it arms the timer. -/
def Pending.notify (t : TrackedKeys) (p : Pending) (e : Event) : Option (Pending × Bool) :=
  (p.buffer t e).map fun q => ({ q with clear := false }, p.clear)

def Pending.publish (p : Pending) : Snapshot × Pending :=
  (p.snapshot, p.published)

end IngressCache
