import IngressCache.Time.Instant

/-!
# Handles of material

What a lookup of secret material hands out: the name of a file and a hash of its content.
-/

namespace IngressCache

/-- A file and the hash of its content in hexadecimal digits. -/
structure FileHandle where
  filename : String
  hash : String
  deriving DecidableEq, Repr

/-- A bundle of certificate and key, with what the certificate says. -/
structure BundleHandle where
  filename : String
  hash : String
  commonName : String
  notAfter : Instant
  deriving DecidableEq

end IngressCache
