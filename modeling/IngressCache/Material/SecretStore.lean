import IngressCache.Change.Basic
import IngressCache.Material.CertStore

/-!
# Stores of secret material

What events ask of a store, and the two stores there are: files that follow the lister, and a
store that keeps nothing and is only there to see what is asked of it.
-/

namespace IngressCache

inductive StoreCall
  | update (key : String)
  | delete (key : String)
  | resync
  deriving DecidableEq, Repr

def StoreCall.text : StoreCall → String
  | .update key => "update " ++ key
  | .delete key => "delete " ++ key
  | .resync => "resync"

def StoreCall.subject : StoreCall → String
  | .update key | .delete key => key
  | .resync => ""

def Event.storeCall : Event → Option StoreCall
  | .secret c =>
    match c.classify with
    | .added s | .updated _ s => some (.update (objectKey s))
    | .deleted s => some (.delete (objectKey s))
    | .unclassified => some .resync
  | .resync => some .resync
  | _ => none

def CertStore.follow (secrets : Lister Secret) (st : CertStore) :
    StoreCall → CertStore × List Warning
  | .update key => st.refresh secrets key
  | .delete key => st.evict key
  | .resync => st.resync secrets

inductive SecretStore
  | files (store : CertStore)
  /-- No material at all; calls for which `breaks` holds do not return. -/
  | observer (breaks : StoreCall → Bool)

namespace SecretStore

/-- The store after a call, with what it reports; `none` if the call does not return. -/
def call (secrets : Lister Secret) (st : SecretStore) (c : StoreCall) :
    Option (SecretStore × List Warning) :=
  match st with
  | files s =>
    let (s, warnings) := s.follow secrets c
    some (files s, warnings)
  | observer breaks => if breaks c then none else some (st, [])

def isObserved : SecretStore → Bool
  | files _ => false
  | observer _ => true

def certificate (secrets : Lister Secret) (st : SecretStore) (key : Key) :
    SecretStore × Except Failure Material :=
  match st with
  | files s =>
    let (s, result) := s.certificate secrets key
    (files s, result)
  | observer _ => (st, .error (.malformed ("no certificate " ++ key.path)))

def addDhParameters (st : SecretStore) (name : String) (content : Bytes) :
    SecretStore × Except Failure FileHandle :=
  match st with
  | files s =>
    let (s, result) := s.addDhParameters name content
    (files s, result)
  | observer _ => (st, .error (.keyGeneration ("no dh-param " ++ name)))

end SecretStore

end IngressCache
