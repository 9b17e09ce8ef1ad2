import IngressCache.Material.Directory
import IngressCache.Material.Handle
import IngressCache.Material.Rendering
import IngressCache.Object.Lister
import IngressCache.Warning

/-!
# The store of material

A directory of files rendered from secrets, and what is known of each rendered secret. A secret
is rendered when it is first asked for; from then on the store follows the lister: a change
renders the secret again, and a secret that cannot be rendered any more leaves the store with
its files.
-/

namespace IngressCache

/-- The store: its files, and what is known under the written key of a secret. -/
structure CertStore where
  directory : Directory
  cached : Table String Material

namespace CertStore

def empty : CertStore :=
  ⟨.empty, .empty⟩

/-! ### Files -/

/-- Writes files one after the other, up to the first that cannot be written. -/
def writeParts (d : Directory) : List Part → Directory × Option IoFault
  | [] => (d, none)
  | p :: ps =>
    match d.write p.file p.content with
    | .error f => (d, some f)
    | .ok d => writeParts d ps

/-- Removes files one after the other. A missing file is as good as removed; what else cannot be
removed stays and is reported. -/
def removeFiles (d : Directory) : List String → Directory × List Warning
  | [] => (d, [])
  | f :: fs =>
    match d.remove f with
    | .ok d => removeFiles d fs
    | .error .noSuchFile => removeFiles d fs
    | .error cause =>
      let (d, warnings) := removeFiles d fs
      (d, .removal f cause :: warnings)

/-- The files of `old` that `new` no longer has. -/
def dropped (old new : Material) : List String :=
  let gone (a b : Option String) := if a = b then [] else a.toList
  gone old.bundle new.bundle ++ gone old.authorities new.authorities ++
    gone old.revocations new.revocations

/-! ### Rendering from the lister -/

def rendering (secrets : Lister Secret) (key : Key) : Except Failure Rendering :=
  match secrets.find? key with
  | none => .error (.notFound .secret key.text)
  | some s => s.render key

/-- Writes a rendering. What was written before a fault stays. -/
def writeRendering (st : CertStore) (r : Rendering) : CertStore × Except Failure Material :=
  match writeParts st.directory r.parts with
  | (d, none) => ({ st with directory := d }, .ok r.material)
  | (d, some f) => ({ st with directory := d }, .error (.io f))

def remember (st : CertStore) (key : String) (m : Material) : CertStore :=
  { st with cached := st.cached.insert key m }

/-- The material of a secret, rendered if it is asked for the first time. -/
def certificate (secrets : Lister Secret) (st : CertStore) (key : Key) :
    CertStore × Except Failure Material :=
  match st.cached.get? key.text with
  | some m => (st, .ok m)
  | none =>
    match rendering secrets key with
    | .error f => (st, .error f)
    | .ok r =>
      match st.writeRendering r with
      | (st, .ok m) => (st.remember key.text m, .ok m)
      | (st, .error f) => (st, .error f)

/-! ### Following the lister -/

def evict (st : CertStore) (key : String) : CertStore × List Warning :=
  match st.cached.get? key with
  | none => (st, [])
  | some m =>
    let (d, warnings) := removeFiles st.directory m.files
    (⟨d, st.cached.erase key⟩, warnings)

/-- Renders a known secret again; nothing is written if all that is known of it stays. -/
def rerender (secrets : Lister Secret) (st : CertStore) (key : String) (current : Material) :
    CertStore × Except Failure (Option Material) :=
  match (Key.require key).bind (rendering secrets) with
  | .error f => (st, .error f)
  | .ok r =>
    if r.material = current then (st, .ok none)
    else
      match st.writeRendering r with
      | (st, .ok m) => (st, .ok (some m))
      | (st, .error f) => (st, .error f)

/-- Brings the material of a known secret up to date. If that fails, the secret leaves. -/
def refresh (secrets : Lister Secret) (st : CertStore) (key : String) : CertStore × List Warning :=
  match st.cached.get? key with
  | none => (st, [])
  | some current =>
    match rerender secrets st key current with
    | (st, .ok none) => (st, [])
    | (st, .ok (some m)) =>
      let (d, warnings) := removeFiles st.directory (dropped current m)
      ((CertStore.mk d st.cached).remember key m, warnings)
    | (st, .error f) =>
      let (st, warnings) := st.evict key
      (st, .refresh key f :: warnings)

def isListed (secrets : Lister Secret) (key : String) : Bool :=
  match Key.parse key with
  | .ok k => (secrets.find? k).isSome
  | .error _ => false

def reconcile (secrets : Lister Secret) (st : CertStore) (key : String) :
    CertStore × List Warning :=
  if isListed secrets key then st.refresh secrets key else st.evict key

/-- Compares known secrets with the lister, one after the other. -/
def reconcileAll (secrets : Lister Secret) (st : CertStore) : List String →
    CertStore × List Warning
  | [] => (st, [])
  | key :: keys =>
    let (st, warnings) := st.reconcile secrets key
    let (st, more) := st.reconcileAll secrets keys
    (st, warnings ++ more)

def resync (secrets : Lister Secret) (st : CertStore) : CertStore × List Warning :=
  st.reconcileAll secrets st.cached.keys

/-! ### Parameters for key exchange -/

def dhTag : String := "DH PARAMETERS"

def dhFault? (name : String) (content : Bytes) : Option Failure :=
  match Pem.parse content with
  | .error f => some (.malformed s!"invalid dh-param '{name}': {f.message}")
  | .ok block =>
    if block.tag = dhTag then none
    else some (.malformed s!"invalid dh-param '{name}': unexpected PEM block '{block.tag}'")

def addDhParameters (st : CertStore) (name : String) (content : Bytes) :
    CertStore × Except Failure FileHandle :=
  match dhFault? name content with
  | some f => (st, .error f)
  | none =>
    let file := name ++ ".pem"
    match st.directory.write file content with
    | .error f => (st, .error (.io f))
    | .ok d => ({ st with directory := d }, .ok ⟨file, Sha256.hexDigest content⟩)

end CertStore

end IngressCache
