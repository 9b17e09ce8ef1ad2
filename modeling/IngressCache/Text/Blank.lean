/-!
# Blank characters

The white space of the Unicode character database, and cutting it from the front of a text.
-/

namespace IngressCache.Text

/-- Closed ranges of the code points that count as white space. -/
def blankRanges : List (Nat × Nat) :=
  [(0x09, 0x0d), (0x20, 0x20), (0x85, 0x85), (0xa0, 0xa0), (0x1680, 0x1680), (0x2000, 0x200a),
    (0x2028, 0x2029), (0x202f, 0x202f), (0x205f, 0x205f), (0x3000, 0x3000)]

def isBlank (c : Char) : Bool :=
  blankRanges.any fun (low, high) => low ≤ c.toNat && c.toNat ≤ high

def trimStart (s : List Char) : List Char :=
  s.dropWhile isBlank

theorem trimStart_nil : trimStart [] = [] := rfl

end IngressCache.Text
