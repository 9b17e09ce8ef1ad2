import IngressCache.Object.Basic

/-!
# Ingress classes

Which ingresses belong to the controller. The class of the specification wins over the one of
the annotation; ingresses of no class are taken only where that is configured.
-/

namespace IngressCache

/-- The annotation that names the class of an ingress without one in its specification. -/
def classAnnotation : String :=
  "kubernetes.io/ingress.class"

def Ingress.class? (i : Ingress) : Option String :=
  i.spec.bind IngressSpec.className <|> i.metadata.annotations.bind (·.get? classAnnotation)

/-- The class of the controller, and whether it takes ingresses of no class. -/
structure ClassFilter where
  className : String
  withoutClass : Bool
  deriving DecidableEq, Repr

def ClassFilter.accepts (f : ClassFilter) (i : Ingress) : Bool :=
  match i.class? with
  | some c => c == f.className
  | none => f.withoutClass

end IngressCache
