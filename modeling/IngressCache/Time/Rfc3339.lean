import IngressCache.Text.Blank
import IngressCache.Time.Instant

/-!
# Instants as text

Writing follows RFC 3339. Reading is more tolerant: numbers may have fewer digits, blanks may
stand between the parts, a space may stand for the letter between date and time, and the offset
may be written with or without a colon. A reader goes from the left and names the first cause
that it meets.
-/

namespace IngressCache.Rfc3339

/-! ### Writing -/

/-- A number in at least `width` decimal digits. -/
def digits (width n : Nat) : List Char :=
  let ds := Nat.toDigits 10 n
  List.replicate (width - ds.length) '0' ++ ds

/-- A year: four digits, and a sign in front of years that need it. -/
def year (y : Int) : List Char :=
  if 0 ≤ y ∧ y ≤ 9999 then digits 4 y.toNat
  else (if y < 0 then '-' else '+') :: digits 4 y.natAbs

/-- The fraction of a second in 0, 3, 6 or 9 digits, as few as hold it. -/
def fraction (nano : Nat) : List Char :=
  if nano = 0 then []
  else if nano % 1000000 = 0 then '.' :: digits 3 (nano / 1000000)
  else if nano % 1000 = 0 then '.' :: digits 6 (nano / 1000)
  else '.' :: digits 9 nano

def dateAndTime (i : Instant) : List Char :=
  year i.date.year ++ '-' :: digits 2 i.date.month ++ '-' :: digits 2 i.date.day ++
    'T' :: digits 2 i.time.hour ++ ':' :: digits 2 i.time.minute ++
    ':' :: digits 2 i.time.second ++ fraction i.time.nano

def render (i : Instant) : String :=
  String.ofList (dateAndTime i ++ ['Z'])

/-- An instant, with the offset of universal time in digits. -/
def renderWithOffset (i : Instant) : String :=
  String.ofList (dateAndTime i ++ "+00:00".toList)

/-! ### Reading -/

inductive Fault
  | outOfRange
  | impossible
  | invalid
  | tooShort
  | tooLong
  deriving DecidableEq, Repr

def Fault.message : Fault → String
  | .outOfRange => "input is out of range"
  | .impossible => "no possible date and time matching input"
  | .invalid => "input contains invalid characters"
  | .tooShort => "premature end of input"
  | .tooLong => "trailing input"

def value (ds : List Char) : Nat :=
  ds.foldl (fun n c => 10 * n + (c.toNat - '0'.toNat)) 0

/-- A number of at least one digit and, if there is a limit, of at most so many. -/
def number (limit : Option Nat) (s : List Char) : Except Fault (Nat × List Char) :=
  let run := s.takeWhile Char.isDigit
  let ds := match limit with
    | some n => run.take n
    | none => run
  match s, ds with
  | [], _ => .error .tooShort
  | _, [] => .error .invalid
  | s, ds =>
    if value ds < Nat.pow 2 63 then .ok (value ds, s.drop ds.length) else .error .outOfRange

def field (low high : Nat) (s : List Char) : Except Fault (Nat × List Char) := do
  let (n, s) ← number (some 2) (Text.trimStart s)
  if low ≤ n ∧ n ≤ high then .ok (n, s) else .error .outOfRange

def mark (c : Char) (s : List Char) : Except Fault (List Char) :=
  match Text.trimStart s with
  | [] => .error .tooShort
  | x :: rest => if x = c then .ok rest else .error .invalid

/-- A year: four digits at most, or a sign and any number of digits. -/
def signedYear (s : List Char) : Except Fault (Int × List Char) := do
  let (y, s) ← match Text.trimStart s with
    | '-' :: rest => (fun (n, s) => (-(n : Int), s)) <$> number none rest
    | '+' :: rest => (fun (n, s) => ((n : Int), s)) <$> number none rest
    | s => (fun (n, s) => ((n : Int), s)) <$> number (some 4) s
  if -2147483648 ≤ y ∧ y < 2147483648 then .ok (y, s) else .error .outOfRange

/-- The nanoseconds of an optional fraction; digits past the ninth are dropped. -/
def nanos (s : List Char) : Except Fault (Nat × List Char) :=
  match s with
  | '.' :: rest => do
    let (n, after) ← number (some 9) rest
    let count := rest.length - after.length
    .ok (n * Nat.pow 10 (9 - count), after.dropWhile Char.isDigit)
  | s => .ok (0, s)

/-- Two digits. A single character of several bytes is wrong, one byte is too short. -/
def pair (s : List Char) : Except Fault ((Char × Char) × List Char) :=
  match s with
  | a :: b :: rest => if a.isDigit && b.isDigit then .ok ((a, b), rest) else .error .invalid
  | [a] => if a.utf8Size = 1 then .error .tooShort else .error .invalid
  | [] => .error .tooShort

def offsetMinutes (s : List Char) : Except Fault (Nat × List Char) := do
  let ((a, b), s) ← pair s
  let s := s.dropWhile fun c => c == ':' || Text.isBlank c
  let ((c, d), rest) ← pair s
  if '6' ≤ c then .error .outOfRange
  .ok (60 * value [a, b] + value [c, d], rest)

def offset (s : List Char) : Except Fault (Int × List Char) :=
  match s with
  | [] => .error .tooShort
  | 'Z' :: rest | 'z' :: rest => .ok (0, rest)
  | '+' :: rest => (fun (n, s) => ((n : Int), s)) <$> offsetMinutes rest
  | '-' :: rest | '\u2212' :: rest => (fun (n, s) => (-(n : Int), s)) <$> offsetMinutes rest
  | a :: b :: c :: rest =>
    if [a, b, c].map Char.toUpper = ['U', 'T', 'C'] then .ok (0, rest) else .error .invalid
  | _ => .error .invalid

def parse (text : String) : Except Fault Instant := do
  let (year, s) ← signedYear text.toList
  let s ← mark '-' s
  let (month, s) ← field 1 12 s
  let s ← mark '-' s
  let (day, s) ← field 1 31 s
  let s ← match s with
    | 't' :: rest | 'T' :: rest | ' ' :: rest => .ok rest
    | [] => .error .tooShort
    | _ => .error .invalid
  let (hour, s) ← field 0 23 s
  let s ← mark ':' s
  let (minute, s) ← field 0 59 s
  let s ← mark ':' s
  let (second, s) ← field 0 60 s
  let (nano, s) ← nanos s
  let (offset, s) ← offset (Text.trimStart s)
  if Text.trimStart s ≠ [] then .error .tooLong
  match Date.ofParts? year month day, TimeOfDay.ofParts? hour minute second nano with
  | some date, some time =>
    if -1440 < offset ∧ offset < 1440 then
      match Instant.ofLocal? date time offset with
      | some i => .ok i
      | none => .error .impossible
    else .error .outOfRange
  | _, _ => .error .outOfRange

end IngressCache.Rfc3339
