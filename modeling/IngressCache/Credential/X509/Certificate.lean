import IngressCache.Credential.Der
import IngressCache.Credential.Pem
import IngressCache.Credential.X509.Time

/-!
# Certificates

What the controller reads from a certificate: the common name of its subject, its DNS names and
its expiry. The whole structure has to be well formed, up to the parts that nobody looks at.
-/

namespace IngressCache

structure CertificateInfo where
  commonName : String
  dnsNames : List String
  notAfter : Instant
  deriving DecidableEq

namespace X509

open Der

/-! ### Parts -/

structure Attribute where
  type : Bytes
  value : Element

structure Extension where
  type : Bytes
  value : Bytes

def typeCommonName : Bytes := [0x55, 0x04, 0x03]

def typeSubjectAltName : Bytes := [0x55, 0x1d, 0x11]

def objectIdentifier (b : Bytes) : Option (Bytes × Bytes) :=
  primitive tagObjectIdentifier b

def algorithm (b : Bytes) : Option (Unit × Bytes) := do
  let (inner, rest) ← sequence b
  let (_, parameter) ← objectIdentifier inner
  if parameter = [] then return ((), rest)
  let _ ← element parameter
  return ((), rest)

def trailingZeros (b : UInt8) : Nat :=
  ((List.range 8).takeWhile fun i => b.toNat / Nat.pow 2 i % 2 = 0).length

/-- True for the contents of a bit string: the number of unused bits, which are zero, and the
bits. -/
def isBitString (b : Bytes) : Bool :=
  match b with
  | [] => false
  | [unused] => unused == 0
  | unused :: bits => unused.toNat ≤ trailingZeros (bits.getLastD 0)

def bitString (b : Bytes) : Option (Unit × Bytes) := do
  let (inner, rest) ← primitive tagBitString b
  if isBitString inner then return ((), rest) else none

def nameAttribute (b : Bytes) : Option (Attribute × Bytes) := do
  let (inner, rest) ← sequence b
  let (type, value) ← objectIdentifier inner
  let (value, _) ← element value
  return (⟨type, value⟩, rest)

def relativeName (b : Bytes) : Option (List Attribute × Bytes) := do
  let (e, rest) ← tagged tagSet b
  match many nameAttribute e.contents with
  | ([], _) => none
  | (as, _) => if e.constructed then some (as, rest) else none

def name (b : Bytes) : Option (List Attribute × Bytes) := do
  let (inner, rest) ← sequence b
  return ((many relativeName inner).1.flatten, rest)

def time (b : Bytes) : Option (Instant × Bytes) := do
  let (e, rest) ← element b
  let i ← if e.tag = tagUtcTime then utcTime e.contents
    else if e.tag = tagGeneralizedTime then generalizedTime e.contents
    else none
  return (i, rest)

def validity (b : Bytes) : Option (Instant × Bytes) := do
  let (inner, rest) ← sequence b
  let (_, inner) ← time inner
  let (notAfter, _) ← time inner
  return (notAfter, rest)

def subjectKey (b : Bytes) : Option (Unit × Bytes) := do
  let (inner, rest) ← sequence b
  let (_, inner) ← algorithm inner
  let (_, _) ← bitString inner
  return ((), rest)

def isNatural32 (b : Bytes) : Bool :=
  match b with
  | [] => false
  | [a] => a < 128
  | a :: c :: rest => a < 128 && (a != 0 || 128 ≤ c) && Bytes.toNat (a :: c :: rest) < Nat.pow 2 32

def skipVersion (b : Bytes) : Option Bytes := do
  let (e, rest) ← element b
  if e.tag = 0 ∧ e.tagClass = 2 then
    let (n, _) ← primitive tagInteger e.contents
    if isNatural32 n then some rest else none
  else some b

/-- Skips the unique identifier of that number, if there is one. -/
def skipUniqueId (n : Nat) (b : Bytes) : Option Bytes :=
  match element b with
  | some (e, rest) =>
    if e.tag = n ∧ e.tagClass = 2 then
      if !e.constructed && isBitString e.contents then some rest else none
    else some b
  | none => some b

def extension (b : Bytes) : Option (Extension × Bytes) := do
  let (inner, rest) ← sequence b
  let (type, inner) ← objectIdentifier inner
  let inner ← match tagged tagBoolean inner with
    | some (e, after) => if e.contents.length = 1 ∧ !e.constructed then some after else none
    | none => some inner
  let (value, _) ← primitive tagOctetString inner
  return (⟨type, value⟩, rest)

def extensions (b : Bytes) : Option (List Extension) :=
  if b = [] then some []
  else do
    let (h, b) ← header b
    if h.tag = 3 then
      let (inner, rest) ← sequence b
      if rest = [] then all extension inner else none
    else none

/-! ### Names -/

/-- The text of an attribute value of one of the plain text types. -/
def plainText (e : Element) : Option String :=
  if e.tag ∈ [tagUtf8String, tagPrintableString, tagIa5String, tagNumericString] then
    Utf8.decode? e.contents
  else none

def commonName (subject : List Attribute) : String :=
  match subject.find? fun a => a.type = typeCommonName with
  | some a => (plainText a.value).getD ""
  | none => ""

/-- The DNS name that one of the subject's names is, if it is one. -/
def dnsName? (e : Element) : Option String :=
  if e.tag = 2 then Utf8.decode? e.contents else none

def namesOf (value : Bytes) : Option (List String) := do
  let (inner, _) ← sequence value
  let names ← all element inner
  if names.all fun e => e.tagClass = 2 then some (names.filterMap dnsName?) else none

/-- The DNS names of the extensions; none if several extensions give names. -/
def dnsNames (es : List Extension) : List String :=
  match es.filter fun e => e.type = typeSubjectAltName with
  | [e] => (namesOf e.value).getD []
  | _ => []

/-! ### Certificates -/

def signedPart (b : Bytes) : Option CertificateInfo := do
  let b ← skipVersion b
  let (_, b) ← tagged tagInteger b
  let (_, b) ← algorithm b
  let (_, b) ← name b
  let (notAfter, b) ← validity b
  let (subject, b) ← name b
  let (_, b) ← subjectKey b
  let b ← skipUniqueId 1 b
  let b ← skipUniqueId 2 b
  let es ← extensions b
  return ⟨commonName subject, dnsNames es, notAfter⟩

/-- What an encoded certificate says. Bytes after it do not matter. -/
def certificate (b : Bytes) : Option CertificateInfo := do
  let (inner, _) ← sequence b
  let (signed, inner) ← sequence inner
  let info ← signedPart signed
  let (_, inner) ← algorithm inner
  let (_, _) ← bitString inner
  return info

inductive Fault
  | pem (fault : Pem.Fault)
  | noBlock
  | malformed
  deriving DecidableEq, Repr

/-- The wording of a fault. What is wrong inside a certificate is left out. -/
def Fault.message : Fault → String
  | .pem f => f.message
  | .noBlock => "cannot find a proper pem block"
  | .malformed => "<x509>"

def parseDer (b : Bytes) : Except Fault CertificateInfo :=
  match certificate b with
  | some info => .ok info
  | none => .error .malformed

def parseChain (b : Bytes) : Except Fault CertificateInfo := do
  let blocks ← (Pem.parseAll b).mapError .pem
  match blocks.find? fun block => block.tag = "CERTIFICATE" with
  | some block => parseDer block.contents
  | none => .error .noBlock

end X509

end IngressCache
