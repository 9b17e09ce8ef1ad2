import IngressCache.Encoding.Bytes

/-!
# Elements of distinguished encodings

Tag, length and contents of encoded values, as far as certificates need them. Lengths are
definite; they may be spelled longer than necessary, so that a reader of a stricter format has
to look at the spelling too.
-/

namespace IngressCache.Der

structure Element where
  /-- Universal, application, context or private, from 0 to 3. -/
  tagClass : Nat
  constructed : Bool
  tag : Nat
  contents : Bytes
  deriving DecidableEq, Repr

/-! ### Tags of universal types -/

def tagBoolean : Nat := 1
def tagInteger : Nat := 2
def tagBitString : Nat := 3
def tagOctetString : Nat := 4
def tagObjectIdentifier : Nat := 6
def tagUtf8String : Nat := 12
def tagSequence : Nat := 16
def tagSet : Nat := 17
def tagNumericString : Nat := 18
def tagPrintableString : Nat := 19
def tagIa5String : Nat := 22
def tagUtcTime : Nat := 23
def tagGeneralizedTime : Nat := 24

/-! ### Reading -/

/-- The number of a long tag: seven bits for each byte, up to the first byte below 128. At most
`left` bytes are read, and 32 bits are kept. -/
def longTag : (left n : Nat) → Bytes → Option (Nat × Bytes)
  | 0, _, _ => none
  | _, _, [] => none
  | left + 1, n, b :: rest =>
    let n := (n * 128 + b.toNat % 128) % Nat.pow 2 32
    if b < 128 then some (n, rest) else longTag left n rest

def length (b : Bytes) : Option (Nat × Bytes) :=
  match b with
  | [] => none
  | l :: rest =>
    if l < 128 then some (l.toNat, rest)
    else if l = 128 ∨ l = 255 then none
    else
      let count := l.toNat - 128
      let n := Bytes.toNat (rest.take count)
      if count ≤ rest.length ∧ n < Nat.pow 2 64 then some (n, rest.drop count) else none

structure Header where
  /-- Universal, application, context or private, from 0 to 3. -/
  tagClass : Nat
  constructed : Bool
  tag : Nat
  length : Nat
  deriving DecidableEq, Repr

def header (b : Bytes) : Option (Header × Bytes) :=
  match b with
  | [] => none
  | a :: rest => do
    let (tag, rest) ← if a.toNat % 32 = 31 then longTag 5 0 rest else some (a.toNat % 32, rest)
    let (n, rest) ← length rest
    return (⟨a.toNat / 64, a.toNat / 32 % 2 = 1, tag, n⟩, rest)

def element (b : Bytes) : Option (Element × Bytes) := do
  let (h, rest) ← header b
  if h.length ≤ rest.length then
    return (⟨h.tagClass, h.constructed, h.tag, rest.take h.length⟩, rest.drop h.length)
  else none

def tagged (tag : Nat) (b : Bytes) : Option (Element × Bytes) := do
  let (e, rest) ← element b
  if e.tag = tag then some (e, rest) else none

def sequence (b : Bytes) : Option (Bytes × Bytes) := do
  let (e, rest) ← tagged tagSequence b
  if e.constructed then some (e.contents, rest) else none

/-- The contents of the primitive element of that tag number ahead. -/
def primitive (tag : Nat) (b : Bytes) : Option (Bytes × Bytes) := do
  let (e, rest) ← tagged tag b
  if e.constructed then none else some (e.contents, rest)

/-- Reads values while they are well formed; `fuel` bounds their number. -/
def manyFrom {α : Type} (read : Bytes → Option (α × Bytes)) : (fuel : Nat) → Bytes →
    List α × Bytes
  | 0, b => ([], b)
  | fuel + 1, b =>
    match read b with
    | some (a, rest) =>
      let (as, rest) := manyFrom read fuel rest
      (a :: as, rest)
    | none => ([], b)

def many {α : Type} (read : Bytes → Option (α × Bytes)) (b : Bytes) : List α × Bytes :=
  manyFrom read b.length b

/-- Reads values to the end, if all of them are well formed. -/
def all {α : Type} (read : Bytes → Option (α × Bytes)) (b : Bytes) : Option (List α) :=
  match many read b with
  | (as, []) => some as
  | _ => none

end IngressCache.Der
