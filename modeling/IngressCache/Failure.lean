import IngressCache.Object.Key
import IngressCache.Object.Kind

/-!
# Failures

Why a lookup or a write failed, the class that a failure falls into, and its wording.
-/

namespace IngressCache

inductive IoFault
  | noSuchFile
  | fileExists
  | notADirectory
  | isADirectory
  | nameTooLong
  | other (text : String)
  deriving DecidableEq, Repr

def IoFault.message : IoFault → String
  | .noSuchFile => "No such file or directory (os error 2)"
  | .fileExists => "File exists (os error 17)"
  | .notADirectory => "Not a directory (os error 20)"
  | .isADirectory => "Is a directory (os error 21)"
  | .nameTooLong => "File name too long (os error 36)"
  | .other text => text

inductive ApiFault
  | status (code : Nat) (reason message : String)
  | body
  | connection
  | request
  deriving DecidableEq, Repr

inductive Failure
  | notFound (kind : Kind) (key : String)
  /-- `reference` on behalf of `ns` names a secret of the other namespace `target`. -/
  | denied (reference ns target : String)
  | malformed (text : String)
  | transient (cause : ApiFault)
  | badKey (fault : KeyFault)
  | keyGeneration (text : String)
  | io (fault : IoFault)
  deriving DecidableEq, Repr

inductive FailureClass
  | notFound
  | denied
  | malformed
  | transient
  | internal
  deriving DecidableEq, Repr

namespace Failure

def toClass : Failure → FailureClass
  | notFound _ _ => .notFound
  | denied _ _ _ => .denied
  | malformed _ | badKey _ => .malformed
  | transient _ => .transient
  | keyGeneration _ | io _ => .internal

/-- The wording of a failure. What the API client says is left out. -/
def message : Failure → String
  | notFound kind key => kind.label ++ " '" ++ key ++ "' not found"
  | denied reference ns target =>
    "trying to read secret '" ++ reference ++ "' from namespace '" ++ ns ++
      "', but cross-namespace reading of namespace '" ++ target ++
      "' is disabled; use --allow-cross-namespace to enable"
  | malformed text => text
  | transient _ => "transient cluster API failure: <kube>"
  | badKey fault => fault.message
  | keyGeneration text => "key generation failed: " ++ text
  | io fault => "IO error: " ++ fault.message

/-- The failure of an API call about an object: an object that the server does not know is not
found, everything else may pass. -/
def ofApi (kind : Kind) (key : String) : ApiFault → Failure
  | .status 404 _ _ => .notFound kind key
  | cause => .transient cause

end Failure

/-- The key of a written form, with the failure of a lookup. -/
def Key.require (s : String) : Except Failure Key :=
  (Key.parse s).mapError .badKey

end IngressCache
