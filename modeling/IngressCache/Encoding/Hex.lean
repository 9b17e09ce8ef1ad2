import IngressCache.Encoding.Bytes

/-!
# Hexadecimal text

Bytes and numbers as lower-case hexadecimal digits.
-/

namespace IngressCache.Hex

def ofByte (b : UInt8) : List Char :=
  [Nat.digitChar (b.toNat / 16), Nat.digitChar (b.toNat % 16)]

def ofBytes (b : Bytes) : String :=
  String.ofList (b.flatMap ofByte)

def ofNat (n : Nat) : String :=
  String.ofList (Nat.toDigits 16 n)

def digit? (c : Char) : Option Nat :=
  if '0' ≤ c ∧ c ≤ '9' then some (c.toNat - '0'.toNat)
  else if 'a' ≤ c ∧ c ≤ 'f' then some (c.toNat - 'a'.toNat + 10)
  else if 'A' ≤ c ∧ c ≤ 'F' then some (c.toNat - 'A'.toNat + 10)
  else none

def bytesOf? : List Char → Option Bytes
  | [] => some []
  | [_] => none
  | a :: b :: rest => do
    let high ← digit? a
    let low ← digit? b
    let rest ← bytesOf? rest
    return UInt8.ofNat (16 * high + low) :: rest

end IngressCache.Hex
