import IngressCache.Encoding.Bytes

/-!
# Base 64

Decoding of padded base 64 text of the standard alphabet. Exactly one text stands for each byte
string: padding is required and the unused bits of the last symbol are zero. A refusal names the
first cause that a reader meets who looks at the last byte of a text of odd length first, then
at the groups of four from the left.
-/

namespace IngressCache.Base64

inductive Fault
  /-- A byte outside the alphabet, or padding where none may stand. -/
  | symbol (byte : UInt8) (offset : Nat)
  | length (n : Nat)
  | lastSymbol (byte : UInt8) (offset : Nat)
  | padding
  deriving DecidableEq, Repr

def Fault.message : Fault → String
  | .symbol b i => s!"Invalid symbol {b}, offset {i}."
  | .length n => s!"Invalid input length: {n}"
  | .lastSymbol b i => s!"Invalid last symbol {b}, offset {i}."
  | .padding => "Invalid padding"

/-! ### The alphabet -/

def pad : UInt8 := 61

def bits? (b : UInt8) : Option Nat :=
  if 65 ≤ b ∧ b ≤ 90 then some (b.toNat - 65)
  else if 97 ≤ b ∧ b ≤ 122 then some (b.toNat - 71)
  else if 48 ≤ b ∧ b ≤ 57 then some (b.toNat + 4)
  else if b = 43 then some 62
  else if b = 47 then some 63
  else none

def bitsAt (offset : Nat) (b : UInt8) : Except Fault Nat :=
  match bits? b with
  | some n => .ok n
  | none => .error (.symbol b offset)

/-! ### Groups -/

def groupBytes (a b c d : Nat) : Bytes :=
  let n := ((a * 64 + b) * 64 + c) * 64 + d
  [UInt8.ofNat (n / 65536), UInt8.ofNat (n / 256), UInt8.ofNat n]

/-- What stands in the last group: the symbols before the padding, with their bits, and the
number of padding bytes. -/
structure LastGroup where
  symbols : List (UInt8 × Nat)
  padding : Nat
  deriving DecidableEq, Repr

/-- Reading of the last group, at most four bytes, which starts at `base`. -/
def readLast (base : Nat) : (offset : Nat) → LastGroup → Bytes → Except Fault LastGroup
  | _, g, [] => .ok g
  | i, g, b :: rest =>
    if b = pad then
      if i < 2 then .error (.symbol b (base + i))
      else readLast base (i + 1) { g with padding := g.padding + 1 } rest
    else if g.padding > 0 then .error (.symbol pad (base + i - g.padding))
    else do
      let n ← bitsAt (base + i) b
      readLast base (i + 1) { g with symbols := g.symbols ++ [(b, n)] } rest

def LastGroup.bytes (base : Nat) (g : LastGroup) : Except Fault Bytes :=
  let check (unused : Nat) (last : UInt8 × Nat) (b : Bytes) : Except Fault Bytes :=
    if (g.symbols.length + g.padding) % 4 ≠ 0 then .error .padding
    else if last.2 % unused ≠ 0 then .error (.lastSymbol last.1 (base + g.symbols.length - 1))
    else .ok b
  match g.symbols with
  | [] | [_] => .error (.length (base + g.symbols.length))
  | [a, b] => check 16 b [UInt8.ofNat ((a.2 * 64 + b.2) / 16)]
  | [a, b, c] =>
    let n := (a.2 * 64 + b.2) * 64 + c.2
    check 4 c [UInt8.ofNat (n / 1024), UInt8.ofNat (n / 4)]
  | a :: b :: c :: d :: _ => .ok (groupBytes a.2 b.2 c.2 d.2)

def decodeGroups (base : Nat) : Bytes → Except Fault Bytes
  | a :: b :: c :: d :: e :: rest => do
    let w ← bitsAt base a
    let x ← bitsAt (base + 1) b
    let y ← bitsAt (base + 2) c
    let z ← bitsAt (base + 3) d
    let tail ← decodeGroups (base + 4) (e :: rest)
    return groupBytes w x y z ++ tail
  | [] => .ok []
  | last => do
    let g ← readLast base 0 ⟨[], 0⟩ last
    g.bytes base

def decode (text : Bytes) : Except Fault Bytes :=
  match text.getLast? with
  | some last =>
    if text.length % 4 = 1 ∧ last ≠ pad ∧ (bits? last).isNone then
      .error (.symbol last (text.length - 1))
    else decodeGroups 0 text
  | none => .ok []

end IngressCache.Base64
