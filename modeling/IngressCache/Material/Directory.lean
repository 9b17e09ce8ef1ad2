import IngressCache.Collections.Table
import IngressCache.Encoding.Bytes
import IngressCache.Failure

/-!
# Directories

One directory of files. A name may also be taken by a directory, which holds nothing. Files are
written whole and for their owner alone; a failed operation changes nothing.
-/

namespace IngressCache

inductive Node
  | file (content : Bytes) (mode : Nat)
  | folder
  deriving DecidableEq, Repr

abbrev Directory := Table String Node

namespace Directory

/-- The mode of files that only their owner may read and write. -/
def privateMode : Nat := 0o600

/-- The mode of the directory itself, which only its owner may enter. -/
def ownMode : Nat := 0o700

def maxNameSize : Nat := 255

/-- Why a name cannot be the name of a file here. A name with a slash leads into another
directory, and there is none. -/
def nameFault? (d : Directory) (name : String) : Option IoFault :=
  if '\x00' ∈ name.toList then some (.other "file name contained an unexpected NUL byte")
  else
    let first := String.ofList (name.toList.takeWhile (· ≠ '/'))
    if maxNameSize < first.utf8ByteSize then some .nameTooLong
    else if first = name then none
    else match d.get? first with
      | some (.file _ _) => some .notADirectory
      | _ => some .noSuchFile

def content? (d : Directory) (name : String) : Option Bytes :=
  match d.get? name with
  | some (.file content _) => some content
  | _ => none

def write (d : Directory) (name : String) (content : Bytes) : Except IoFault Directory :=
  match d.nameFault? name with
  | some f => .error f
  | none =>
    match d.get? name with
    | some .folder => .error .isADirectory
    | _ => .ok (d.insert name (.file content privateMode))

def remove (d : Directory) (name : String) : Except IoFault Directory :=
  match d.nameFault? name with
  | some f => .error f
  | none =>
    match d.get? name with
    | some (.file _ _) => .ok (d.erase name)
    | some .folder => .error .isADirectory
    | none => .error .noSuchFile

/-! ### Effects -/

theorem eq_insert_of_write {d d' : Directory} {name : String} {content : Bytes}
    (h : d.write name content = .ok d') : d' = d.insert name (.file content privateMode) := by
  unfold write at h
  split at h
  · cases h
  · split at h
    · cases h
    · exact (Except.ok.inj h).symm

theorem eq_erase_of_remove {d d' : Directory} {name : String} (h : d.remove name = .ok d') :
    d' = d.erase name := by
  unfold remove at h
  split at h
  · cases h
  · split at h
    · exact (Except.ok.inj h).symm
    · cases h
    · cases h

end Directory

end IngressCache
