import IngressCache.Material.SecretStore
import IngressCache.Reference.Policy
import IngressCache.Reference.Tracker

/-!
# Resolving references to secrets

Cluster objects name secrets by reference. A reference is resolved under the policy, the secret
is asked for material or content, and the outcome is recorded as one dependency of the target
that asked, whether it was found or not.
-/

namespace IngressCache

inductive Wanted
  | tls
  | ca
  | dh
  | content
  deriving DecidableEq, Repr

def Wanted.label : Wanted → String
  | .tls => "tls"
  | .ca => "ca"
  | .dh => "dh"
  | .content => "content"

/-- Who asks for what: the namespace that bare references belong to, the reference, and the
target that is built from the answer. -/
structure Query where
  ns : String
  reference : String
  target : Target
  deriving DecidableEq, Repr

structure Resolution (α : Type) where
  result : Except Failure α
  store : SecretStore
  dependency : Dependency

namespace Resolution

variable {α : Type}

def found (r : Resolution α) : Bool :=
  match r.result with
  | .ok _ => true
  | .error _ => false

/-- Resolves the reference of a query and asks for the secret. A reference that is rejected is
recorded as it was written. -/
def run (policy : Policy) (store : SecretStore) (q : Query)
    (ask : SecretStore → Key → SecretStore × Except Failure α) : Resolution α :=
  match policy.resolve q.ns q.reference with
  | .error f => ⟨.error f, store, ⟨q.target, ⟨true, .secret, q.reference⟩⟩⟩
  | .ok key =>
    match ask store key with
    | (store, .ok a) => ⟨.ok a, store, ⟨q.target, ⟨false, .secret, key.path⟩⟩⟩
    | (store, .error f) => ⟨.error f, store, ⟨q.target, ⟨true, .secret, key.path⟩⟩⟩

end Resolution

namespace Resolver

/-! ### Handles of material -/

def bundleHandle (key : Key) (m : Material) : Except Failure BundleHandle :=
  match m.bundle, m.certificate with
  | some file, some info => .ok ⟨file, m.hash, info.commonName, info.notAfter⟩
  | _, _ =>
    .error (.malformed
      s!"secret '{key.path}' does not have keys '{DataKey.certificate}' and '{DataKey.privateKey}'")

def noKey (key : Key) (name : String) : Failure :=
  .malformed s!"secret '{key.path}' does not have key '{name}'"

/-- Authorities and revocations of the material of a secret. -/
def authorityHandles (key : Key) (m : Material) :
    Except Failure (FileHandle × Option FileHandle) :=
  match m.authorities with
  | some file => .ok (⟨file, m.hash⟩, m.revocations.map (⟨·, m.hash⟩))
  | none => .error (noKey key DataKey.authorities)

def secretContent (secrets : Lister Secret) (key : Key) (name : String) : Except Failure Bytes :=
  match secrets.find? key with
  | none => .error (.notFound .secret key.path)
  | some s =>
    match s.get? name with
    | some b => .ok b
    | none => .error (noKey key name)

/-! ### Lookups -/

variable (policy : Policy) (secrets : Lister Secret) (store : SecretStore) (q : Query)

def tls : Resolution BundleHandle :=
  Resolution.run policy store q fun store key =>
    let (store, material) := store.certificate secrets key
    (store, material.bind (bundleHandle key))

/-- The authorities of a secret, and its revocations if there are any. Both carry the hash of all
material of the secret. -/
def ca : Resolution (FileHandle × Option FileHandle) :=
  Resolution.run policy store q fun store key =>
    let (store, material) := store.certificate secrets key
    (store, material.bind (authorityHandles key))

def dh : Resolution FileHandle :=
  Resolution.run policy store q fun store key =>
    match secretContent secrets key DataKey.dhParameters with
    | .error f => (store, .error f)
    | .ok content =>
      let name := key.fileStem
      let (store, result) := store.addDhParameters name content
      (store, result.mapError fun
        | .malformed text => .malformed s!"error creating dh-param file '{name}': {text}"
        | f => f)

def content (name : String) : Resolution Bytes :=
  Resolution.run policy store q fun store key => (store, secretContent secrets key name)

end Resolver

end IngressCache
