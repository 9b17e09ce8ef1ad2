import IngressCache.Credential.Der
import IngressCache.Credential.Pem

/-!
# RSA private keys

Private keys in the plain RSA format: a sequence of nine natural numbers in the one canonical
spelling. The factors have to belong to the modulus and the two exponents to each other; the
three numbers that only speed up computation are read and not looked at.
-/

namespace IngressCache

structure RsaKey where
  modulus : Nat
  exponent : Nat
  secret : Nat
  deriving DecidableEq, Repr

namespace RsaKey

/-! ### Canonical encodings -/

/-- The length ahead in its shortest spelling, with at most four bytes after the first. -/
def canonicalLength (b : Bytes) : Option (Nat × Bytes) := do
  let (n, rest) ← Der.length b
  let count := b.length - rest.length
  if n < 128 then if count = 1 then some (n, rest) else none
  else if count ≤ 5 ∧ Nat.pow 256 (count - 2) ≤ n then some (n, rest) else none

/-- The contents of the value with that first byte ahead, and the bytes after it. -/
def canonicalValue (first : UInt8) : Bytes → Option (Bytes × Bytes)
  | [] => none
  | b :: rest => do
    let (n, rest) ← canonicalLength rest
    if b = first ∧ n ≤ rest.length then some (rest.take n, rest.drop n) else none

/-- The value of the contents of a natural number: the first bit is zero, and a zero byte comes
first only where it is needed for that. -/
def naturalOf : Bytes → Option Nat
  | [] => none
  | [a] => if a < 128 then some a.toNat else none
  | a :: b :: rest =>
    if a < 128 ∧ (a ≠ 0 ∨ 128 ≤ b) then some (Bytes.toNat (a :: b :: rest)) else none

def natural (b : Bytes) : Option (Nat × Bytes) := do
  let (contents, rest) ← canonicalValue 0x02 b
  let n ← naturalOf contents
  return (n, rest)

def naturals : (count : Nat) → Bytes → Option (List Nat)
  | 0, b => if b = [] then some [] else none
  | count + 1, b => do
    let (n, rest) ← natural b
    let ns ← naturals count rest
    return n :: ns

/-! ### Keys -/

def inverseModulo (exponent secret factor : Nat) : Bool :=
  (exponent * secret) % (factor - 1) == 1 % (factor - 1)

/-- True for a key that the two factors belong to, with a modulus of at most 4096 bits and a
public exponent of at most 33. -/
def isValid (k : RsaKey) (p q : Nat) : Bool :=
  k.modulus < Nat.pow 2 4096 && 2 ≤ k.exponent && k.exponent < Nat.pow 2 33 && 1 < p && 1 < q &&
    p * q == k.modulus && 0 < k.secret && inverseModulo k.exponent k.secret p &&
    inverseModulo k.exponent k.secret q

def ofDer? (b : Bytes) : Option RsaKey := do
  let (contents, rest) ← canonicalValue 0x30 b
  if rest ≠ [] then none
  match ← naturals 9 contents with
  | [0, n, e, d, p, q, _, _, _] =>
    let k : RsaKey := ⟨n, e, d⟩
    if k.isValid p q then some k else none
  | _ => none

inductive Fault
  | noBlock
  | malformed
  deriving DecidableEq, Repr

def ofPem (b : Bytes) : Except Fault RsaKey :=
  match Pem.parse b with
  | .error _ => .error .noBlock
  | .ok block =>
    match ofDer? block.contents with
    | some k => .ok k
    | none => .error .malformed

end RsaKey

end IngressCache
