import IngressCache.Decimal.Shortest
import IngressCache.Encoding.Hex
import IngressCache.Json.Fault

/-!
# Words, numbers and texts of JSON

Each scanner takes the characters ahead and gives what it read and the characters after it, or
the first fault from the left. A value that nobody asks for is skipped: its numbers may be of any
size and its surrogates need no partner.
-/

namespace IngressCache.Json

/-! ### Blanks and words -/

def isBlank (c : Char) : Bool :=
  c == ' ' || c == '\n' || c == '\t' || c == '\r'

def skipBlanks (s : List Char) : List Char :=
  s.dropWhile isBlank

def word : (expected : List Char) → List Char → Except Fault (List Char)
  | [], s => .ok s
  | _ :: _, [] => .error .endOfValue
  | e :: es, c :: s => if c = e then word es s else .error .expectedWord

theorem word_append (w s : List Char) : word w (w ++ s) = .ok s := by
  induction w with
  | nil => rfl
  | cons c w ih => simp [word, ih]

/-! ### Texts -/

/-- The number of a four-digit escape. Fewer than four bytes ahead count as an early end. -/
def unit16 (s : List Char) : Except Fault (Nat × List Char) :=
  let tooShort : Bool := (s.take 4).foldl (fun n c => n + c.utf8Size) 0 < 4
  match s with
  | a :: b :: c :: d :: rest =>
    match Hex.digit? a, Hex.digit? b, Hex.digit? c, Hex.digit? d with
    | some a, some b, some c, some d => .ok (((a * 16 + b) * 16 + c) * 16 + d, rest)
    | _, _, _, _ => .error .invalidEscape
  | _ => .error (if tooShort then .endOfText else .invalidEscape)

def shortEscape? : Char → Option Char
  | '"' => some '"'
  | '\\' => some '\\'
  | '/' => some '/'
  | 'b' => some '\x08'
  | 'f' => some '\x0c'
  | 'n' => some '\n'
  | 'r' => some '\r'
  | 't' => some '\t'
  | _ => none

/-- The character of a numeric escape after its letter u; two escapes may make one character. -/
def numericEscape (s : List Char) : Except Fault (Char × List Char) := do
  let (n, s) ← unit16 s
  if 0xdc00 ≤ n ∧ n ≤ 0xdfff then .error .loneSurrogate
  else if n < 0xd800 ∨ 0xdbff < n then .ok (Char.ofNat n, s)
  else
    match s with
    | [] => .error .endOfText
    | '\\' :: s =>
      match s with
      | [] => .error .endOfText
      | 'u' :: s => do
        let (m, s) ← unit16 s
        if m < 0xdc00 ∨ 0xdfff < m then .error .loneSurrogate
        else .ok (Char.ofNat (0x10000 + (n - 0xd800) * 0x400 + (m - 0xdc00)), s)
      | _ => .error .unfinishedSurrogate
    | _ => .error .unfinishedSurrogate

/-- The content of a text after its opening mark; `fuel` bounds the number of characters. -/
def textFrom : (fuel : Nat) → List Char → Except Fault (List Char × List Char)
  | 0, _ => .error .endOfText
  | _, [] => .error .endOfText
  | fuel + 1, c :: s =>
    if c = '"' then .ok ([], s)
    else if c = '\\' then
      match s with
      | [] => .error .endOfText
      | e :: s =>
        if e = 'u' then do
          let (x, s) ← numericEscape s
          let (content, s) ← textFrom fuel s
          .ok (x :: content, s)
        else
          match shortEscape? e with
          | some x => do
            let (content, s) ← textFrom fuel s
            .ok (x :: content, s)
          | none => .error .invalidEscape
    else if c < ' ' then .error .controlCharacter
    else do
      let (content, s) ← textFrom fuel s
      .ok (c :: content, s)

def text (s : List Char) : Except Fault (String × List Char) := do
  let (content, s) ← textFrom (s.length + 1) s
  .ok (String.ofList content, s)

def skipText : (fuel : Nat) → List Char → Except Fault (List Char)
  | 0, _ => .error .endOfText
  | _, [] => .error .endOfText
  | fuel + 1, c :: s =>
    if c = '"' then .ok s
    else if c = '\\' then
      match s with
      | [] => .error .endOfText
      | e :: s =>
        if e = 'u' then do
          let (_, s) ← unit16 s
          skipText fuel s
        else if (shortEscape? e).isSome then skipText fuel s
        else .error .invalidEscape
    else if c < ' ' then .error .controlCharacter
    else skipText fuel s

/-! ### Numbers -/

structure Spelling where
  negative : Bool
  whole : List Char
  decimals : Option (List Char)
  exponent : Option (Bool × List Char)

/-- A run of digits; the fault tells whether the text ends in its place. -/
def digitRun (s : List Char) : Except Bool (List Char × List Char) :=
  match s.takeWhile Char.isDigit with
  | [] => .error s.isEmpty
  | ds => .ok (ds, s.drop ds.length)

def spelling (s : List Char) : Except Bool (Spelling × List Char) := do
  let (negative, s) := match s with
    | '-' :: rest => (true, rest)
    | s => (false, s)
  let (whole, s) ← digitRun s
  if whole.head? = some '0' ∧ whole.length > 1 then .error false
  let (decimals, s) ← match s with
    | '.' :: rest => (fun (ds, s) => (some ds, s)) <$> digitRun rest
    | s => .ok (none, s)
  let (exponent, s) ← match s with
    | 'e' :: rest | 'E' :: rest =>
      match rest with
      | '-' :: rest => (fun (ds, s) => (some (true, ds), s)) <$> digitRun rest
      | '+' :: rest => (fun (ds, s) => (some (false, ds), s)) <$> digitRun rest
      | rest => (fun (ds, s) => (some (false, ds), s)) <$> digitRun rest
    | s => .ok (none, s)
  .ok (⟨negative, whole, decimals, exponent⟩, s)

def digitValue (c : Char) : Nat :=
  c.toNat - '0'.toNat

/-- Takes digits into a number below `bound` as long as it stays there. -/
def absorb (bound : Nat) : (n : Nat) → List Char → Nat × List Char
  | n, [] => (n, [])
  | n, c :: cs =>
    if 10 * n + digitValue c < bound then absorb bound (10 * n + digitValue c) cs else (n, c :: cs)

def powerOfTen (n : Nat) : Float :=
  Float.ofScientific 1 false n

/-- A significand times a power of ten, rounded at each step; `none` when it is too large. -/
def scale : (fuel : Nat) → Float → Int → Option Float
  | 0, x, _ => some x
  | fuel + 1, x, e =>
    if e.natAbs ≤ 308 then
      if 0 ≤ e then
        let y := x * powerOfTen e.natAbs
        if y.isInf then none else some y
      else some (x / powerOfTen e.natAbs)
    else if x == 0 then some x
    else if 0 ≤ e then none
    else scale fuel (x / powerOfTen 308) (e + 308)

/-- The floating point value of a spelling, without its sign; `none` when it is too large. -/
def Spelling.float? (n : Spelling) : Option Float :=
  let (significand, dropped) := absorb (Nat.pow 2 64) 0 n.whole
  let decimals := n.decimals.getD []
  let (significand, rest) := absorb (Nat.pow 2 64) significand decimals
  let start : Int := dropped.length - (decimals.length - rest.length : Nat)
  let x := (UInt64.ofNat significand).toFloat
  match n.exponent with
  | none => scale 4 x start
  | some (negative, ds) =>
    let (e, rest) := absorb (Nat.pow 2 31) 0 ds
    if rest ≠ [] then
      if significand ≠ 0 ∧ !negative then none else some 0
    else scale 4 x (if negative then start - e else start + e)

def shownReal : Decimal.Layout := ⟨-5, 15, 2⟩

/-- What a number is: a 64-bit natural number, a negative 64-bit integer or a real number. -/
def Spelling.found (n : Spelling) : Except Fault Found :=
  let (whole, rest) := absorb (Nat.pow 2 64) 0 n.whole
  if n.decimals.isNone ∧ n.exponent.isNone ∧ rest = [] ∧
      (n.negative = false ∨ (0 < whole ∧ whole ≤ Nat.pow 2 63)) then
    .ok (if n.negative then .negative whole else .natural whole)
  else
    match n.float? with
    | some x => .ok (.real (shownReal.render (if n.negative then -x else x)))
    | none => .error .numberOutOfRange

def number (s : List Char) : Except Fault (Found × List Char) :=
  match spelling s with
  | .error true => .error .endOfValue
  | .error false => .error .invalidNumber
  | .ok (n, s) => (·, s) <$> n.found

def skipNumber (s : List Char) : Except Fault (List Char) :=
  match spelling s with
  | .error _ => .error .invalidNumber
  | .ok (_, s) => .ok s

/-! ### Skipped values -/

inductive Frame
  | list
  | object
  deriving DecidableEq, Repr

def Frame.close : Frame → Char
  | .list => ']'
  | .object => '\x7d'

def Frame.ended : Frame → Fault
  | .list => .endOfList
  | .object => .endOfObject

/-- The fault of a character that neither separates nor closes. -/
def Frame.unseparated : Frame → Fault
  | .list => .expectedItemEnd
  | .object => .expectedFieldEnd

def colon (s : List Char) : Except Fault (List Char) :=
  match skipBlanks s with
  | [] => .error .endOfObject
  | ':' :: rest => .ok rest
  | _ => .error .expectedColon

/-- The key and colon in front of a skipped value of an object; nothing in a list. -/
def Frame.skipKey (f : Frame) (s : List Char) : Except Fault (List Char) :=
  match f with
  | .list => .ok s
  | .object =>
    match skipBlanks s with
    | [] => .error .endOfObject
    | '"' :: rest => do colon (← skipText (rest.length + 1) rest)
    | _ => .error .keyIsNotText

def skipScalar (s : List Char) : Except Fault (List Char) :=
  match s with
  | [] => .error .endOfValue
  | c :: rest =>
    if c = 'n' then word "ull".toList rest
    else if c = 't' then word "rue".toList rest
    else if c = 'f' then word "alse".toList rest
    else if c = '"' then skipText (rest.length + 1) rest
    else if c = '-' ∨ c.isDigit then skipNumber s
    else .error .expectedValue

/-- Where a skip stands: before a value, just inside an opened bracket, or after a value. -/
inductive Place
  | before
  | opened
  | after
  deriving DecidableEq, Repr

/-- The characters after a value and the brackets around it; `fuel` bounds the steps. -/
def skipFrom : (fuel : Nat) → List Frame → Place → List Char → Except Fault (List Char)
  | 0, _, _, _ => .error .endOfValue
  | fuel + 1, frames, .before, s =>
    match skipBlanks s with
    | '[' :: rest => skipFrom fuel (.list :: frames) .opened rest
    | '\x7b' :: rest => skipFrom fuel (.object :: frames) .opened rest
    | s => do skipFrom fuel frames .after (← skipScalar s)
  | _ + 1, [], _, s => .ok s
  | fuel + 1, f :: frames, .opened, s =>
    match skipBlanks s with
    | [] => .error f.ended
    | c :: rest =>
      if c = f.close then skipFrom fuel frames .after rest
      else do skipFrom fuel (f :: frames) .before (← f.skipKey (c :: rest))
  | fuel + 1, f :: frames, .after, s =>
    match skipBlanks s with
    | [] => .error f.ended
    | c :: rest =>
      if c = f.close then skipFrom fuel frames .after rest
      else if c = ',' then do skipFrom fuel (f :: frames) .before (← f.skipKey rest)
      else .error f.unseparated

def skipValue (s : List Char) : Except Fault (List Char) :=
  skipFrom (2 * s.length + 2) [] .before s

end IngressCache.Json
