/-!
# Counters

What the controller counts: ingested events, publishes, published changes, lookups of secret
material and generated account keys. A counter with labels has one series for each combination
of label values; combinations whose values read the same when written one after the other share
the series that came first.
-/

namespace IngressCache

structure Series where
  values : List String
  count : Nat
  deriving DecidableEq, Repr

/-- The counted combinations of one counter, in the order in which they came up. -/
abbrev Counter := List Series

namespace Counter

def joined (values : List String) : String :=
  values.foldl (· ++ ·) ""

def record (values : List String) : Counter → Counter
  | [] => [⟨values, 1⟩]
  | s :: rest =>
    if joined s.values = joined values then { s with count := s.count + 1 } :: rest
    else s :: record values rest

def count (values : List String) : Counter → Nat
  | [] => 0
  | s :: rest => if joined s.values = joined values then s.count else count values rest

theorem count_record_self (values : List String) (c : Counter) :
    (c.record values).count values = c.count values + 1 := by
  induction c with
  | nil => simp [record, count]
  | cons s rest ih =>
    by_cases h : joined s.values = joined values
    · simp [record, count, h]
    · simp [record, count, h, ih]

theorem count_record_ne {values other : List String} (h : joined other ≠ joined values)
    (c : Counter) : (c.record values).count other = c.count other := by
  induction c with
  | nil => simp [record, count, h.symm]
  | cons s rest ih =>
    by_cases hs : joined s.values = joined values
    · simp [record, count, hs, h.symm]
    · simp [record, count, hs, ih]

end Counter

structure Metrics where
  events : Counter
  publishes : Counter
  publishedChanges : Nat
  lookups : Counter
  accountKeys : Nat
  deriving DecidableEq, Repr

namespace Metrics

def zero : Metrics :=
  ⟨[], [], 0, [], 0⟩

def recordEvent (m : Metrics) (kind action : String) : Metrics :=
  { m with events := m.events.record [kind, action] }

def recordPublish (m : Metrics) (changes : Nat) (fullSync : Bool) : Metrics :=
  { m with
    publishes := m.publishes.record [if fullSync then "full" else "partial"]
    publishedChanges := m.publishedChanges + changes }

def recordLookup (m : Metrics) (lookup : String) (found : Bool) : Metrics :=
  { m with lookups := m.lookups.record [lookup, if found then "found" else "missing"] }

def recordAccountKey (m : Metrics) : Metrics :=
  { m with accountKeys := m.accountKeys + 1 }

end Metrics

end IngressCache
