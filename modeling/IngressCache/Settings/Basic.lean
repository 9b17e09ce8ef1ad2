import IngressCache.Object.Key

/-!
# Settings of the controller

Every setting has a default.
-/

namespace IngressCache

structure UpdateSettings where
  /-- Milliseconds from the first change of a burst to its signal. -/
  waitBeforeUpdate : UInt64
  resyncPeriod : UInt64
  deriving DecidableEq

structure AcmeSettings where
  accountKeySecret : String
  tokenConfigMap : String
  deriving DecidableEq

structure Settings where
  ingressClass : String
  withoutClass : Bool
  watchNamespace : Option String
  allowCrossNamespace : Bool
  globalConfigMap : Option String
  tcpConfigMap : Option String
  disablePodList : Bool
  certDir : String
  podNamespace : Option String
  podName : Option String
  metricsAddress : String
  updates : UpdateSettings
  acme : AcmeSettings
  deriving DecidableEq

/-! ### Defaults -/

def UpdateSettings.default : UpdateSettings :=
  ⟨200, 600⟩

def AcmeSettings.default : AcmeSettings :=
  ⟨"acme-private-key", "acme-validation-tokens"⟩

def Settings.default : Settings where
  ingressClass := "haul"
  withoutClass := false
  watchNamespace := none
  allowCrossNamespace := false
  globalConfigMap := none
  tcpConfigMap := none
  disablePodList := false
  certDir := "/var/lib/haul/ssl"
  podNamespace := none
  podName := none
  metricsAddress := "0.0.0.0:10254"
  updates := .default
  acme := .default

/-! ### Derived values -/

def UpdateSettings.resyncMillis (u : UpdateSettings) : Nat :=
  1000 * u.resyncPeriod.toNat

namespace Settings

/-- The namespace of ACME objects that are written without one. -/
def acmeNamespace (s : Settings) : String :=
  s.podNamespace.getD "default"

def accountKey (s : Settings) : Except KeyFault Key :=
  Key.parseIn s.acmeNamespace s.acme.accountKeySecret

def tokens (s : Settings) : Except KeyFault Key :=
  Key.parseIn s.acmeNamespace s.acme.tokenConfigMap

end Settings

end IngressCache
