import IngressCache.Text.Quoted

/-!
# Object keys

The identity of a namespaced object, and its written form: `namespace/name`, or the name alone
when there is no namespace.
-/

namespace IngressCache

/-- Namespace and name of an object. The namespace is empty when none is given. -/
structure Key where
  ns : String
  name : String
  deriving DecidableEq, Repr

structure KeyFault where
  text : String
  deriving DecidableEq, Repr

def KeyFault.message (f : KeyFault) : String :=
  "unexpected key format: " ++ Text.quoted f.text

namespace Key

/-! ### Writing -/

def text (k : Key) : String :=
  if k.ns = "" then k.name else k.ns ++ "/" ++ k.name

/-- The form with a slash also in front of a name without namespace. -/
def path (k : Key) : String :=
  k.ns ++ "/" ++ k.name

theorem text_of_ns_empty {k : Key} (h : k.ns = "") : k.text = k.name :=
  if_pos h

theorem text_of_ns_ne_empty {k : Key} (h : k.ns ≠ "") : k.text = k.path :=
  if_neg h

/-! ### Reading -/

/-- The text up to the first slash, and what follows that slash. -/
def splitSlash (s : List Char) : List Char × Option (List Char) :=
  (s.takeWhile (· ≠ '/'), (s.dropWhile (· ≠ '/')).tail?)

/-- The key of a written form: at most one slash, and a name that is not empty. -/
def parse (s : String) : Except KeyFault Key :=
  match splitSlash s.toList with
  | (name, none) => if name = [] then .error ⟨s⟩ else .ok ⟨"", String.ofList name⟩
  | (ns, some name) =>
    if name = [] ∨ '/' ∈ name then .error ⟨s⟩
    else .ok ⟨String.ofList ns, String.ofList name⟩

/-- The key of a written form; `fallback` is the namespace when it gives none. -/
def parseIn (fallback : String) (s : String) : Except KeyFault Key := do
  let k ← parse s
  return if k.ns = "" then { k with ns := fallback } else k

theorem parse_error {s : String} {f : KeyFault} (h : parse s = .error f) : f.text = s := by
  unfold parse at h
  split at h <;> split at h <;> simp_all
  all_goals rw [← h]

end Key

end IngressCache
