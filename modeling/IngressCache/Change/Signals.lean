/-!
# Signals

The clock of the controller, and the signals that wake its one consumer. A timer sends one
signal when it ends. Signals that nobody waits for leave one permit, so that the next wait ends
at once, however many there were.
-/

namespace IngressCache

/-- Clock, timers and signals. Times are milliseconds since the start. -/
structure Signals where
  now : Nat
  timers : List Nat
  permit : Bool
  sent : List Nat
  deriving DecidableEq, Repr

namespace Signals

def start : Signals :=
  ⟨0, [], false, []⟩

def arm (s : Signals) (wait : Nat) : Signals :=
  { s with timers := s.timers ++ [s.now + wait] }

def next? (s : Signals) : Option Nat :=
  s.timers.min?

/-- The clock at a later time: the timers that end by then send their signals. -/
def moveTo (s : Signals) (time : Nat) : Signals where
  now := time
  timers := s.timers.filter (time < ·)
  permit := s.permit || s.timers.any (· ≤ time)
  sent := s.sent ++ s.timers.filter (· ≤ time)

def take (s : Signals) : Signals :=
  { s with permit := false }

end Signals

end IngressCache
