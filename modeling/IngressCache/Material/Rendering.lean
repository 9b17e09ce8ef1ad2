import IngressCache.Credential.X509.Certificate
import IngressCache.Encoding.Sha256
import IngressCache.Failure
import IngressCache.Object.Basic

/-!
# Secret material

What a secret becomes in the directory of material: a bundle of certificate and key, a bundle of
authorities, a revocation list. The rendering of a secret is a function of its key and its data
alone; it names the files, gives their contents, and fails where the certificate is unreadable.
-/

namespace IngressCache

/-! ### Keys of secret data -/

namespace DataKey

def certificate : String := "tls.crt"
def privateKey : String := "tls.key"
def authorities : String := "ca.crt"
def revocations : String := "ca.crl"
def dhParameters : String := "dhparam.pem"

end DataKey

@[ext] structure Material where
  bundle : Option String
  /-- The hash of the contents of all files, in hexadecimal digits. -/
  hash : String
  certificate : Option CertificateInfo
  authorities : Option String
  revocations : Option String
  deriving DecidableEq

def Material.files (m : Material) : List String :=
  m.bundle.toList ++ m.authorities.toList ++ m.revocations.toList

@[ext] structure Part where
  file : String
  content : Bytes
  deriving DecidableEq

structure Rendering where
  bundle : Option (Part × CertificateInfo)
  authorities : Option Part
  revocations : Option Part
  deriving DecidableEq

namespace Rendering

def parts (r : Rendering) : List Part :=
  (r.bundle.map Prod.fst).toList ++ r.authorities.toList ++ r.revocations.toList

def contents (r : Rendering) : Bytes :=
  r.parts.flatMap Part.content

def material (r : Rendering) : Material where
  bundle := r.bundle.map fun b => b.1.file
  hash := Sha256.hexDigest r.contents
  certificate := r.bundle.map Prod.snd
  authorities := r.authorities.map Part.file
  revocations := r.revocations.map Part.file

theorem files_material (r : Rendering) : r.material.files = r.parts.map Part.file := by
  rcases r with ⟨_ | ⟨⟨b, c⟩, i⟩, _ | ⟨a, d⟩, _ | ⟨l, e⟩⟩ <;> rfl

end Rendering

/-! ### Names of files -/

def Key.fileStem (k : Key) : String :=
  k.ns ++ "_" ++ k.name

def Key.bundleFile (k : Key) : String :=
  k.fileStem ++ ".pem"

def Key.authoritiesFile (k : Key) : String :=
  k.fileStem ++ "_ca.pem"

def Key.revocationsFile (k : Key) : String :=
  k.fileStem ++ "_crl.pem"

/-! ### Rendering -/

/-- A certificate and its key in one file, the key on a line of its own. -/
def bundleOf (certificate key : Bytes) : Bytes :=
  (if certificate.getLast? = some 10 then certificate else certificate ++ [10]) ++ key

/-- The bundle of a secret that has both certificate and key. -/
def Secret.renderBundle (s : Secret) (key : Key) : Except Failure (Option (Part × CertificateInfo)) :=
  match s.get? DataKey.certificate, s.get? DataKey.privateKey with
  | some certificate, some privateKey =>
    match X509.parseChain certificate with
    | .ok info => .ok (some (⟨key.bundleFile, bundleOf certificate privateKey⟩, info))
    | .error f =>
      .error (.malformed s!"secret '{key.text}' has an invalid '{DataKey.certificate}': {f.message}")
  | _, _ => .ok none

/-- The material of a secret. Revocations count only beside authorities. -/
def Secret.render (s : Secret) (key : Key) : Except Failure Rendering := do
  let bundle ← s.renderBundle key
  let authorities := (s.get? DataKey.authorities).map (⟨key.authoritiesFile, ·⟩)
  let revocations := authorities.bind fun _ =>
    (s.get? DataKey.revocations).map (⟨key.revocationsFile, ·⟩)
  return ⟨bundle, authorities, revocations⟩

end IngressCache
