import IngressCache.Time.Date

/-!
# Instants

A date and a time of day in universal time, to the nanosecond. A minute may have a second 60.
-/

namespace IngressCache

structure TimeOfDay where
  hour : Fin 24
  minute : Fin 60
  second : Fin 61
  nano : Fin 1000000000
  deriving DecidableEq

structure Instant where
  date : Date
  time : TimeOfDay
  deriving DecidableEq

namespace TimeOfDay

def ofParts? (hour minute second nano : Nat) : Option TimeOfDay :=
  if h : hour < 24 ∧ minute < 60 ∧ second < 61 ∧ nano < 1000000000 then
    some ⟨⟨hour, h.1⟩, ⟨minute, h.2.1⟩, ⟨second, h.2.2.1⟩, ⟨nano, h.2.2.2⟩⟩
  else none

theorem ofParts?_self (t : TimeOfDay) :
    ofParts? t.hour t.minute t.second t.nano = some t := by
  simp [ofParts?]

def minutes (t : TimeOfDay) : Nat :=
  60 * t.hour + t.minute

/-- The same second of another minute of the day, counted from midnight. -/
def withMinutes (t : TimeOfDay) (minutes : Nat) : TimeOfDay :=
  { t with
    hour := ⟨minutes / 60 % 24, Nat.mod_lt _ (by decide)⟩
    minute := ⟨minutes % 60, Nat.mod_lt _ (by decide)⟩ }

theorem withMinutes_minutes (t : TimeOfDay) : t.withMinutes t.minutes = t := by
  rcases t with ⟨⟨h, hh⟩, ⟨m, hm⟩, s, n⟩
  simp only [withMinutes, minutes, mk.injEq, Fin.mk.injEq, and_true]
  omega

end TimeOfDay

namespace Instant

/-- The instant at which a clock that is `offset` minutes ahead of universal time shows the date
and the time, if the calendar reaches that far. -/
def ofLocal? (date : Date) (time : TimeOfDay) (offset : Int) : Option Instant :=
  let minutes : Int := time.minutes - offset
  (date.shift? (minutes / 1440)).map fun d => ⟨d, time.withMinutes (minutes % 1440).toNat⟩

theorem ofLocal?_zero (d : Date) (t : TimeOfDay) : ofLocal? d t 0 = some ⟨d, t⟩ := by
  have hm : t.minutes < 1440 := by
    have h1 := t.hour.isLt
    have h2 := t.minute.isLt
    simp only [TimeOfDay.minutes]
    omega
  have h0 : ((t.minutes : Int) - 0) / 1440 = 0 := by omega
  have h1 : (((t.minutes : Int) - 0) % 1440).toNat = t.minutes := by omega
  simp only [ofLocal?, h0, h1, Date.shift?_zero, Option.map_some, TimeOfDay.withMinutes_minutes]

end Instant

end IngressCache
