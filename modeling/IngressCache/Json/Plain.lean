import IngressCache.Json.Reader
import IngressCache.Json.Value
import IngressCache.Material.Handle
import IngressCache.Object.Key
import IngressCache.Object.Kind
import IngressCache.Reference.Target

/-!
# JSON forms of kinds, keys, targets and handles

A kind is its type name. A target is the name of its form, in an object with the text it carries
if it carries one. Keys and handles are records.
-/

namespace IngressCache

open Json

/-! ### Kinds -/

def Kind.toJson (k : Kind) : Value :=
  .text k.typeName

def Kind.reader : Reader Kind :=
  .variants (Kind.all.map fun k => .plain k.typeName k)

/-! ### Targets -/

def Target.toJson : Target → Value
  | .hostname h => .object [("Hostname", .text h)]
  | .backend b => .object [("Backend", .text b)]
  | .userlist u => .object [("Userlist", .text u)]
  | .global => .text "Global"

def Target.reader : Reader Target :=
  .variants [.ofText "Hostname" .hostname, .ofText "Backend" .backend,
    .ofText "Userlist" .userlist, .plain "Global" .global]

/-! ### Keys -/

def Key.toJson (k : Key) : Value :=
  .object [("namespace", .text k.ns), ("name", .text k.name)]

structure KeyDraft where
  ns : Option String
  name : Option String

def Key.format : Format KeyDraft Key where
  typeName := "ObjectKey"
  fields := [
    ⟨"namespace", true, fun d => d.ns.isSome,
      fun d => (Reader.text "a string").map fun v => { d with ns := some v }⟩,
    ⟨"name", true, fun d => d.name.isSome,
      fun d => (Reader.text "a string").map fun v => { d with name := some v }⟩]
  empty := ⟨none, none⟩
  finish d := do
    let ns ← required "namespace" d.ns
    let name ← required "name" d.name
    return ⟨ns, name⟩

/-! ### Handles -/

def FileHandle.toJson (f : FileHandle) : Value :=
  .object [("filename", .text f.filename), ("sha256_hash", .text f.hash)]

def BundleHandle.toJson (b : BundleHandle) : Value :=
  .object [("filename", .text b.filename), ("sha256_hash", .text b.hash),
    ("common_name", .text b.commonName), ("not_after", .text (Rfc3339.render b.notAfter))]

structure HandleDraft where
  filename : Option String
  hash : Option String
  commonName : Option String
  notAfter : Option Instant

namespace HandleDraft

def filenameField : RecordField HandleDraft :=
  ⟨"filename", true, fun d => d.filename.isSome,
    fun d => (Reader.text "path string").map fun v => { d with filename := some v }⟩

def hashField : RecordField HandleDraft :=
  ⟨"sha256_hash", true, fun d => d.hash.isSome,
    fun d => (Reader.text "a string").map fun v => { d with hash := some v }⟩

def commonNameField : RecordField HandleDraft :=
  ⟨"common_name", true, fun d => d.commonName.isSome,
    fun d => (Reader.text "a string").map fun v => { d with commonName := some v }⟩

def notAfterField : RecordField HandleDraft :=
  ⟨"not_after", true, fun d => d.notAfter.isSome,
    fun d => Reader.instant.map fun v => { d with notAfter := some v }⟩

end HandleDraft

def FileHandle.format : Format HandleDraft FileHandle where
  typeName := "File"
  fields := [HandleDraft.filenameField, HandleDraft.hashField]
  empty := ⟨none, none, none, none⟩
  finish d := do
    let filename ← required "filename" d.filename
    let hash ← required "sha256_hash" d.hash
    return ⟨filename, hash⟩

def BundleHandle.format : Format HandleDraft BundleHandle where
  typeName := "CrtFile"
  fields := [HandleDraft.filenameField, HandleDraft.hashField, HandleDraft.commonNameField,
    HandleDraft.notAfterField]
  empty := ⟨none, none, none, none⟩
  finish d := do
    let filename ← required "filename" d.filename
    let hash ← required "sha256_hash" d.hash
    let commonName ← required "common_name" d.commonName
    let notAfter ← required "not_after" d.notAfter
    return ⟨filename, hash, commonName, notAfter⟩

end IngressCache
