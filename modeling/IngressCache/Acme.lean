import IngressCache.Credential.RsaKey
import IngressCache.Material.Rendering
import IngressCache.Object.Lookup
import IngressCache.Settings.Basic

/-!
# ACME state in cluster objects

The account key is kept in a secret, the tokens of challenges in a config map with one entry for
each domain, and each issued certificate in a secret of its own.
-/

namespace IngressCache

structure AcmeKeys where
  account : Key
  tokens : Key
  ns : String
  deriving DecidableEq, Repr

def Settings.acmeKeys (s : Settings) : Except KeyFault AcmeKeys := do
  return ⟨← s.accountKey, ← s.tokens, s.acmeNamespace⟩

structure IssuedCertificate where
  info : CertificateInfo
  key : RsaKey
  deriving DecidableEq

namespace AcmeKeys

/-! ### The account key -/

/-- The account key of the lister's secret; `read` decodes it. -/
def loadAccountKey {κ : Type} (a : AcmeKeys) (read : Bytes → Except RsaKey.Fault κ)
    (secrets : Lister Secret) : Except Failure κ := do
  let s ← secrets.lookup a.account.text
  match s.get? DataKey.privateKey with
  | none => .error (.malformed s!"secret '{a.account.text}' does not have a key")
  | some b =>
    match read b with
    | .ok key => .ok key
    | .error .noBlock =>
      .error (.malformed
        s!"secret '{a.account.text}' has not a valid pem encoded private key")
    | .error .malformed =>
      .error (.malformed "error parsing acme client private key: <rsa>")

def accountSecret (a : AcmeKeys) (encoded : Bytes) : Secret :=
  ⟨.ofKey a.account, some (Dict.empty.insert DataKey.privateKey encoded), none⟩

/-! ### Tokens -/

/-- The config map with the token of a domain set, or without one when the token is empty. -/
def withToken (a : AcmeKeys) (maps : Lister ConfigMap) (domain uri token : String) : ConfigMap :=
  let known := match maps.lookup a.tokens.text with
    | .ok m => m
    | .error _ => ⟨.ofKey a.tokens, none⟩
  let entries := known.content
  { known with
    data := some (if token = "" then entries.erase domain
      else entries.insert domain (uri ++ "=" ++ token)) }

def tokenOf (uri entry : String) : Option String :=
  (uri.toList ++ ['=']).isPrefixOf? entry.toList |>.map String.ofList

/-- The token of a domain for an address, empty if there is none. -/
def token (a : AcmeKeys) (maps : Lister ConfigMap) (domain uri : String) : String :=
  match maps.lookup a.tokens.text with
  | .ok m => ((m.content.get? domain).bind (tokenOf uri)).getD ""
  | .error _ => ""

/-! ### Issued certificates -/

def certificateKey (a : AcmeKeys) (name : String) : Except Failure Key :=
  (Key.parseIn a.ns name).mapError .badKey

def required (name : String) (s : Secret) (key : String) : Except Failure Bytes :=
  match s.get? key with
  | some b => .ok b
  | none => .error (.malformed s!"secret {name} does not have {key} key")

/-- The contents of the first block of bytes of a secret of that name. -/
def blockOf (name what : String) (b : Bytes) : Except Failure Bytes :=
  match Pem.parse b with
  | .ok block => .ok block.contents
  | .error _ =>
    .error (.malformed
      s!"error decoding {what} of secret {name}: cannot find a proper pem block")

def issuedOf (name : String) (s : Secret) : Except Failure IssuedCertificate := do
  let certificate ← required name s DataKey.certificate
  let privateKey ← required name s DataKey.privateKey
  let certificate ← blockOf name "crt" certificate
  let privateKey ← blockOf name "key" privateKey
  let info ← (X509.parseDer certificate).mapError fun f =>
    .malformed s!"error parsing crt of secret {name}: {f.message}"
  match RsaKey.ofDer? privateKey with
  | some key => .ok ⟨info, key⟩
  | none => .error (.malformed s!"error parsing key of secret {name}: <rsa>")

def issued (a : AcmeKeys) (secrets : Lister Secret) (name : String) :
    Except Failure IssuedCertificate := do
  let key ← a.certificateKey name
  let s ← secrets.lookup key.text
  issuedOf name s

def tlsType : String :=
  "kubernetes.io/tls"

def certificateSecret (a : AcmeKeys) (name : String) (certificate privateKey : Bytes) :
    Except Failure Secret := do
  let key ← a.certificateKey name
  let data := (Dict.empty.insert DataKey.certificate certificate).insert DataKey.privateKey privateKey
  return ⟨.ofKey key, some data, some tlsType⟩

end AcmeKeys

end IngressCache
