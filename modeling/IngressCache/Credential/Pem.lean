import IngressCache.Encoding.Base64
import IngressCache.Encoding.Utf8
import IngressCache.Text.Blank

/-!
# PEM blocks

Base 64 blocks between a begin line and an end line, anywhere in a byte string. A marker is
looked for from the left without backing up: after a partial match that fails, the search goes
on with the byte after the one that failed.
-/

namespace IngressCache.Pem

structure Block where
  tag : String
  contents : Bytes
  deriving DecidableEq, Repr

inductive Fault
  | framing
  | noBeginTag
  | noEndTag
  | differentTags (beginTag endTag : String)
  | data (fault : Base64.Fault)
  | header (line : String)
  | notText (fault : Utf8.Fault)
  deriving DecidableEq, Repr

def Fault.message : Fault → String
  | .framing => "malformedframing"
  | .noBeginTag => "missing BEGIN tag"
  | .noEndTag => "missing END tag"
  | .differentTags b e => s!"mismatching BEGIN (\"{b}\") and END (\"{e}\") tags"
  | .data f => "invalid data: " ++ f.message
  | .header line => "invalid header: " ++ line
  | .notText f => "invalid utf-8 value: " ++ f.message

/-! ### Markers -/

/-- The bytes before a marker and after it. `wanted` is what is left of the marker to match,
`seen` the bytes passed, with the last one first. -/
def cutFrom (marker : Bytes) : (wanted seen : Bytes) → Bytes → Option (Bytes × Bytes)
  | _, _, [] => none
  | [], _, _ => none
  | w :: ws, seen, b :: rest =>
    if b = w then
      if ws = [] then some (((b :: seen).drop marker.length).reverse, rest)
      else cutFrom marker ws (b :: seen) rest
    else cutFrom marker marker (b :: seen) rest

/-- The bytes before the first marker found and the bytes after it. -/
def cut (marker : String) (b : Bytes) : Option (Bytes × Bytes) :=
  let m := Bytes.ofString marker
  cutFrom m m [] b

def isLineBlank (b : UInt8) : Bool :=
  b == 32 || b == 9 || b == 10 || b == 13

/-! ### Blocks -/

structure Frame where
  beginTag : Bytes
  headers : Bytes
  data : Bytes
  endTag : Bytes

/-- Splits the body of a block at its first empty line: headers before it, data after it. -/
def splitBody (body : Bytes) : Bytes × Bytes :=
  match cut "\n\n" body with
  | some (headers, data) => (headers, data)
  | none =>
    match cut "\r\n\r\n" body with
    | some (headers, data) => (headers, data)
    | none => ([], body)

def frame (b : Bytes) : Option (Frame × Bytes) := do
  let (_, b) ← cut "-----BEGIN " b
  let (beginTag, b) ← cut "-----" b
  let (body, b) ← cut "-----END " (b.dropWhile isLineBlank)
  let (endTag, b) ← cut "-----" b
  let (headers, data) := splitBody body
  return (⟨beginTag, headers, data, endTag⟩, b.dropWhile isLineBlank)

def lines (s : String) : List (List Char) :=
  match s.toList with
  | [] => []
  | cs =>
    let parts := cs.splitOn '\n'
    let strip (l : List Char) := if l.getLast? = some '\r' then l.dropLast else l
    parts.dropLast.map strip ++ (parts.getLast?.toList.filter (· ≠ []))

def textOf (b : Bytes) : Except Fault String :=
  (Utf8.decode b).mapError .notText

def Frame.block (f : Frame) : Except Fault Block := do
  let tag ← textOf f.beginTag
  if tag = "" then .error .noBeginTag
  let endTag ← textOf f.endTag
  if endTag = "" then .error .noEndTag
  if tag ≠ endTag then .error (.differentTags tag endTag)
  let data ← textOf f.data
  let symbols := String.ofList (data.toList.filter fun c => !Text.isBlank c)
  let contents ← (Base64.decode (Bytes.ofString symbols)).mapError .data
  let headers ← textOf f.headers
  match (lines headers).find? fun l => ':' ∉ l with
  | some l => .error (.header (String.ofList l))
  | none => .ok ⟨tag, contents⟩

def parse (b : Bytes) : Except Fault Block :=
  match frame b with
  | some (f, _) => f.block
  | none => .error .framing

/-- The frames of a byte string from the left; `fuel` bounds their number. -/
def framesFrom : (fuel : Nat) → Bytes → List Frame
  | 0, _ => []
  | fuel + 1, b =>
    match frame b with
    | some (f, rest) => f :: framesFrom fuel rest
    | none => []

def frames (b : Bytes) : List Frame :=
  framesFrom b.length b

/-- All blocks of a byte string, if each of them is well formed. -/
def parseAll (b : Bytes) : Except Fault (List Block) :=
  (frames b).mapM Frame.block

end IngressCache.Pem
