import IngressCache.Encoding.Bytes
import IngressCache.Time.Instant

/-!
# Times of certificates

The two time formats of certificates. Of two-digit years those from 50 on belong to the last
century.
-/

namespace IngressCache.X509

def digit? (b : UInt8) : Option Nat :=
  if 48 ≤ b ∧ b ≤ 57 then some (b.toNat - 48) else none

def twoDigits (a b : UInt8) : Option Nat := do
  return 10 * (← digit? a) + (← digit? b)

/-- The date and time of day to the minute, of which the date may not exist, and the bytes that
follow. -/
structure MinuteFields where
  year : Nat
  month : Nat
  day : Nat
  hour : Nat
  minute : Nat
  rest : Bytes

def minuteFields (year : Nat) (b : Bytes) : Option MinuteFields :=
  match b with
  | m₁ :: m₂ :: d₁ :: d₂ :: h₁ :: h₂ :: n₁ :: n₂ :: rest => do
    return ⟨year, ← twoDigits m₁ m₂, ← twoDigits d₁ d₂, ← twoDigits h₁ h₂, ← twoDigits n₁ n₂, rest⟩
  | _ => none

def seconds (b : Bytes) : Option (Nat × Bytes) :=
  match b with
  | [] => none
  | [z] => some (0, [z])
  | s₁ :: s₂ :: rest => do return (← twoDigits s₁ s₂, rest)

/-- The minutes by which a clock is ahead of universal time. The sign of the hours is also that
of the minutes; with no hours the minutes count forward. -/
def zone (b : Bytes) : Option Int :=
  match b with
  | [90] => some 0
  | [sign, h₁, h₂, m₁, m₂] => do
    let h ← twoDigits h₁ h₂
    let m ← twoDigits m₁ m₂
    if h ≤ 25 ∧ m ≤ 59 then
      if sign = 43 then some (60 * h + m)
      else if sign = 45 then some (if h = 0 then (m : Int) else -(60 * h + m : Int))
      else none
    else none
  | _ => none

def instantOf (f : MinuteFields) (second : Nat) (zone : Int) : Option Instant := do
  let date ← Date.ofParts? f.year f.month f.day
  let time ← if second < 60 then TimeOfDay.ofParts? f.hour f.minute second 0 else none
  Instant.ofLocal? date time zone

def isVisible (b : UInt8) : Bool :=
  0x20 ≤ b && b ≤ 0x7f

def utcTime (b : Bytes) : Option Instant :=
  if b.all isVisible then
    match b with
    | y₁ :: y₂ :: rest => do
      let y ← twoDigits y₁ y₂
      let f ← minuteFields (if y < 50 then 2000 + y else 1900 + y) rest
      let (second, rest) ← seconds f.rest
      instantOf f second (← zone rest)
    | _ => none
  else none

def skipFraction (b : Bytes) : Option Bytes :=
  match b with
  | 46 :: rest =>
    let ds := rest.takeWhile fun b => (digit? b).isSome
    if ds.length ≤ 3 then some (rest.drop ds.length) else none
  | rest => some rest

def generalizedTime (b : Bytes) : Option Instant :=
  if b.all isVisible then
    match b with
    | y₁ :: y₂ :: y₃ :: y₄ :: rest => do
      let f ← minuteFields (100 * (← twoDigits y₁ y₂) + (← twoDigits y₃ y₄)) rest
      let (second, rest) ← seconds f.rest
      let rest ← skipFraction rest
      if rest = [90] then instantOf f second 0 else none
    | _ => none
  else none

end IngressCache.X509
