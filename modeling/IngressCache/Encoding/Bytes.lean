/-!
# Byte strings

The raw content of secrets, files and encoded documents.
-/

namespace IngressCache

abbrev Bytes := List UInt8

namespace Bytes

def ofString (s : String) : Bytes :=
  s.toUTF8.toList

def toNat (b : Bytes) : Nat :=
  b.foldl (fun n x => 256 * n + x.toNat) 0

end Bytes

end IngressCache
