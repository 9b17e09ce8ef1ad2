import IngressCache.Encoding.Bytes

/-!
# Reading UTF-8

Decoding of the shortest-form encoding of Unicode scalar values. A refusal names the index of
the first byte that no character holds and how many bytes of a character stood there, or that
the bytes end inside a character.
-/

namespace IngressCache.Utf8

/-- Why bytes are not a text: `index` bytes read well, then `width` bytes do not begin a
character, or (`none`) the bytes end inside one. -/
structure Fault where
  index : Nat
  width : Option Nat
  deriving DecidableEq, Repr

def Fault.message (f : Fault) : String :=
  match f.width with
  | some n => s!"invalid utf-8 sequence of {n} bytes from index {f.index}"
  | none => s!"incomplete utf-8 byte sequence from index {f.index}"

/-! ### Bytes of a character -/

def isTail (b : UInt8) : Bool :=
  0x80 ≤ b && b ≤ 0xbf

def tailBits (b : UInt8) : Nat :=
  b.toNat % 64

def isSecondOfThree (a b : UInt8) : Bool :=
  if a == 0xe0 then 0xa0 ≤ b && b ≤ 0xbf
  else if a == 0xed then 0x80 ≤ b && b ≤ 0x9f
  else isTail b

def isSecondOfFour (a b : UInt8) : Bool :=
  if a == 0xf0 then 0x90 ≤ b && b ≤ 0xbf
  else if a == 0xf4 then 0x80 ≤ b && b ≤ 0x8f
  else isTail b

/-! ### Decoding -/

/-- The characters of bytes that start `index` bytes into the whole. -/
def decodeFrom (index : Nat) : Bytes → Except Fault (List Char)
  | [] => .ok []
  | a :: rest =>
    if a < 0x80 then
      (Char.ofNat a.toNat :: ·) <$> decodeFrom (index + 1) rest
    else if 0xc2 ≤ a && a ≤ 0xdf then
      match rest with
      | [] => .error ⟨index, none⟩
      | b :: rest =>
        if isTail b then
          (Char.ofNat (a.toNat % 32 * 64 + tailBits b) :: ·) <$> decodeFrom (index + 2) rest
        else .error ⟨index, some 1⟩
    else if 0xe0 ≤ a && a ≤ 0xef then
      match rest with
      | [] => .error ⟨index, none⟩
      | b :: rest =>
        if isSecondOfThree a b then
          match rest with
          | [] => .error ⟨index, none⟩
          | c :: rest =>
            if isTail c then
              (Char.ofNat ((a.toNat % 16 * 64 + tailBits b) * 64 + tailBits c) :: ·) <$>
                decodeFrom (index + 3) rest
            else .error ⟨index, some 2⟩
        else .error ⟨index, some 1⟩
    else if 0xf0 ≤ a && a ≤ 0xf4 then
      match rest with
      | [] => .error ⟨index, none⟩
      | b :: rest =>
        if isSecondOfFour a b then
          match rest with
          | [] => .error ⟨index, none⟩
          | c :: rest =>
            if isTail c then
              match rest with
              | [] => .error ⟨index, none⟩
              | d :: rest =>
                if isTail d then
                  (Char.ofNat (((a.toNat % 8 * 64 + tailBits b) * 64 + tailBits c) * 64
                    + tailBits d) :: ·) <$> decodeFrom (index + 4) rest
                else .error ⟨index, some 3⟩
            else .error ⟨index, some 2⟩
        else .error ⟨index, some 1⟩
    else .error ⟨index, some 1⟩

def decode (b : Bytes) : Except Fault String :=
  String.ofList <$> decodeFrom 0 b

def decode? (b : Bytes) : Option String :=
  (decode b).toOption

end IngressCache.Utf8
