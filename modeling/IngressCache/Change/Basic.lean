import IngressCache.Object.Basic

/-!
# Changes

A change of an object is a pair of states, before and after. Which of the two is there tells
what happened; a change without either can only be met by looking at everything again.
-/

namespace IngressCache

universe u

structure Change (α : Type u) where
  old : Option α
  current : Option α
  deriving DecidableEq

inductive Classified (α : Type u)
  | added (current : α)
  | updated (old current : α)
  | deleted (old : α)
  | unclassified
  deriving DecidableEq

namespace Change

variable {α : Type u}

def classify (c : Change α) : Classified α :=
  match c.old, c.current with
  | none, some o => .added o
  | some p, some o => .updated p o
  | some p, none => .deleted p
  | none, none => .unclassified

def latest (c : Change α) : Option α :=
  c.current <|> c.old

def action (c : Change α) : String :=
  match c.classify with
  | .added _ => "add"
  | .updated _ _ => "update"
  | .deleted _ => "del"
  | .unclassified => "unknown"

def filter (p : α → Bool) (c : Change α) : Change α :=
  ⟨c.old.filter p, c.current.filter p⟩

end Change

inductive Event
  | ingress (c : Change Ingress)
  | service (c : Change Service)
  | endpoints (c : Change Endpoints)
  | secret (c : Change Secret)
  | configMap (c : Change ConfigMap)
  | pod (c : Change Pod)
  /-- Something changed, but not one object that can be named. -/
  | resync
  deriving DecidableEq

namespace Event

def change : (k : Kind) → Change k.Object → Event
  | .ingress, c => .ingress c
  | .service, c => .service c
  | .endpoints, c => .endpoints c
  | .secret, c => .secret c
  | .configMap, c => .configMap c
  | .pod, c => .pod c

def kind? : Event → Option Kind
  | ingress _ => some .ingress
  | service _ => some .service
  | endpoints _ => some .endpoints
  | secret _ => some .secret
  | configMap _ => some .configMap
  | pod _ => some .pod
  | resync => none

def kindLabel (e : Event) : String :=
  match e.kind? with
  | some k => k.label
  | none => "resync"

def action : Event → String
  | ingress c => c.action
  | service c => c.action
  | endpoints c => c.action
  | secret c => c.action
  | configMap c => c.action
  | pod c => c.action
  | resync => "unknown"

end Event

end IngressCache
