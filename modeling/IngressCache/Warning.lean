import IngressCache.Failure

/-!
# Warnings

What the controller reports to its operator beside its answers.
-/

namespace IngressCache

inductive Access
  | read
  | write
  deriving DecidableEq, Repr

inductive Warning
  /-- The material of a cached secret could not be brought up to date. -/
  | refresh (key : String) (cause : Failure)
  /-- A file of the directory of material could not be removed. -/
  | removal (file : String) (cause : IoFault)
  | poisonedLock (access : Access)
  | watch (kind : Kind)
  | accountKey (cause : Failure)
  deriving DecidableEq, Repr

def Access.text : Access → String
  | .read => "read"
  | .write => "write"

/-- The wording of a report. The directory of material is written `DIR`, and what the API client
says is left out. -/
def Warning.message : Warning → String
  | .refresh key cause => s!"Failed to refresh secret {key}: {cause.message}"
  | .removal file cause => s!"Failed to remove DIR/{file}: {cause.message}"
  | .poisonedLock access =>
    s!"RwLock poisoned during {access.text}, recovering (data is still valid)"
  | .watch kind => s!"{kind.label} watcher error: <kube>"
  | .accountKey cause => "Replacing unusable ACME account key: " ++ cause.message

end IngressCache
