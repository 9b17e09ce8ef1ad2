/-!
# Calendar dates

Days of the proleptic Gregorian calendar with astronomical year numbers: year 0 comes before
year 1. Every `Date` is a day that exists, within the years that an instant may have.
-/

namespace IngressCache

/-! ### Lengths -/

def isLeapYear (year : Int) : Bool :=
  year % 4 == 0 && (year % 100 != 0 || year % 400 == 0)

/-- The number of days of a month, 0 for a month that does not exist. -/
def daysInMonth (year : Int) (month : Nat) : Nat :=
  match month with
  | 1 | 3 | 5 | 7 | 8 | 10 | 12 => 31
  | 4 | 6 | 9 | 11 => 30
  | 2 => if isLeapYear year then 29 else 28
  | _ => 0

theorem daysInMonth_le (year : Int) (month : Nat) : daysInMonth year month ≤ 31 := by
  unfold daysInMonth
  split <;> (try split) <;> omega

def firstYear : Int := -262143

def lastYear : Int := 262142

def isDate (year : Int) (month day : Nat) : Bool :=
  firstYear ≤ year && year ≤ lastYear && 1 ≤ day && day ≤ daysInMonth year month

structure Date where
  year : Int
  month : Nat
  day : Nat
  isDate : isDate year month day = true
  deriving DecidableEq

namespace Date

/-- The day of that year, month and number, if there is one. -/
def ofParts? (year : Int) (month day : Nat) : Option Date :=
  if h : IngressCache.isDate year month day = true then some ⟨year, month, day, h⟩ else none

theorem ofParts?_self (d : Date) : ofParts? d.year d.month d.day = some d := by
  simp [ofParts?, d.isDate]

theorem month_pos (d : Date) : 1 ≤ d.month := by
  rcases d with ⟨y, m, k, h⟩
  match m with
  | 0 =>
    simp only [IngressCache.isDate, daysInMonth, Bool.and_eq_true, decide_eq_true_eq] at h
    omega
  | m + 1 => exact Nat.le_add_left 1 m

theorem month_le (d : Date) : d.month ≤ 12 := by
  rcases d with ⟨y, m, k, h⟩
  match m with
  | 0 | 1 | 2 | 3 | 4 | 5 | 6 | 7 | 8 | 9 | 10 | 11 | 12 => simp
  | m + 13 =>
    simp only [IngressCache.isDate, daysInMonth, Bool.and_eq_true, decide_eq_true_eq] at h
    omega

theorem day_le (d : Date) : d.day ≤ 31 := by
  have h := d.isDate
  simp only [IngressCache.isDate, Bool.and_eq_true, decide_eq_true_eq] at h
  exact Nat.le_trans h.2 (daysInMonth_le _ _)

/-! ### Neighbours -/

def next? (d : Date) : Option Date :=
  match ofParts? d.year d.month (d.day + 1) with
  | some e => some e
  | none =>
    match ofParts? d.year (d.month + 1) 1 with
    | some e => some e
    | none => ofParts? (d.year + 1) 1 1

def previous? (d : Date) : Option Date :=
  match ofParts? d.year d.month (d.day - 1) with
  | some e => some e
  | none =>
    match ofParts? d.year (d.month - 1) (daysInMonth d.year (d.month - 1)) with
    | some e => some e
    | none => ofParts? (d.year - 1) 12 31

def later? : Nat → Date → Option Date
  | 0, d => some d
  | n + 1, d => d.next?.bind (later? n)

def earlier? : Nat → Date → Option Date
  | 0, d => some d
  | n + 1, d => d.previous?.bind (earlier? n)

/-- The date a number of days away, later if the number is positive. -/
def shift? (n : Int) (d : Date) : Option Date :=
  if 0 ≤ n then d.later? n.toNat else d.earlier? (-n).toNat

theorem shift?_zero (d : Date) : d.shift? 0 = some d := rfl

end Date

end IngressCache
