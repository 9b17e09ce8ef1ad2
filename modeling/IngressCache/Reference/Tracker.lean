import IngressCache.Object.Kind
import IngressCache.Reference.Target

/-!
# Dependencies

Which targets were built from which cluster objects. Objects that were looked up in vain count
too, so that their appearance can be acted upon.
-/

namespace IngressCache

structure Edge where
  missing : Bool
  kind : Kind
  id : String
  deriving DecidableEq, Repr

structure Dependency where
  target : Target
  edge : Edge
  deriving DecidableEq, Repr

structure Tracker where
  dependencies : List Dependency
  nodup : dependencies.Nodup

namespace Tracker

def empty : Tracker :=
  ⟨[], List.nodup_nil⟩

def track (t : Tracker) (d : Dependency) : Tracker :=
  if h : d ∈ t.dependencies then t else ⟨d :: t.dependencies, List.nodup_cons.2 ⟨h, t.nodup⟩⟩

theorem mem_track {t : Tracker} {d e : Dependency} :
    e ∈ (t.track d).dependencies ↔ e = d ∨ e ∈ t.dependencies := by
  unfold track
  split
  · rename_i h
    exact ⟨.inr, fun he => he.elim (fun he => he ▸ h) id⟩
  · simp

def edges (t : Tracker) (target : Target) : List Edge :=
  (t.dependencies.filter (·.target = target)).map Dependency.edge

/-- The targets that depend on an object, found or missing, each once. -/
def targetsFor (t : Tracker) (kind : Kind) (id : String) : List Target :=
  ((t.dependencies.filter fun d => d.edge.kind = kind ∧ d.edge.id = id).map
    Dependency.target).eraseDups

def clearTarget (t : Tracker) (target : Target) : Tracker :=
  ⟨t.dependencies.filter (·.target ≠ target), t.nodup.sublist List.filter_sublist⟩

def size (t : Tracker) : Nat :=
  t.dependencies.length

end Tracker

end IngressCache
