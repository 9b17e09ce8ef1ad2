import IngressCache.Settings.Form

/-!
# Settings from variables

Variables override the settings of a document, or the defaults where there is none. Flags that
are neither `true` nor `false` are ignored; an empty namespace or name of the pod, and an empty
watched namespace, mean that there is none.
-/

namespace IngressCache

inductive NumberFault
  | empty
  | invalidDigit
  | tooLarge
  deriving DecidableEq, Repr

def NumberFault.message : NumberFault → String
  | .empty => "cannot parse integer from empty string"
  | .invalidDigit => "invalid digit found in string"
  | .tooLarge => "number too large to fit in target type"

/-- The digits of a number, from the left: the first digit that is none or that leads past 64
bits decides. -/
def digits64 : (n : Nat) → List Char → Except NumberFault Nat
  | n, [] => .ok n
  | n, c :: cs =>
    if c.isDigit then
      let m := 10 * n + (c.toNat - '0'.toNat)
      if m < Nat.pow 2 64 then digits64 m cs else .error .tooLarge
    else .error .invalidDigit

/-- A natural number of 64 bits, with or without a plus sign. -/
def natural64 (s : String) : Except NumberFault UInt64 :=
  match s.toList with
  | [] => .error .empty
  | ['+'] => .error .invalidDigit
  | '+' :: cs => UInt64.ofNat <$> digits64 0 cs
  | cs => UInt64.ofNat <$> digits64 0 cs

def flag? (s : String) : Option Bool :=
  if s = "true" then some true else if s = "false" then some false else none

def nonempty (s : String) : Option String :=
  if s = "" then none else some s

abbrev Variables := String → Option String

namespace Settings

def override {α : Type} (v : Variables) (name : String) (set : String → α) (current : α) : α :=
  match v name with
  | some s => set s
  | none => current

def overrideFlag (v : Variables) (name : String) (current : Bool) : Bool :=
  ((v name).bind flag?).getD current

def overrideNumber (v : Variables) (name : String) (current : UInt64) :
    Except NumberFault UInt64 :=
  match v name with
  | some s => natural64 s
  | none => .ok current

def withVariables (s : Settings) (v : Variables) : Except NumberFault Settings := do
  let wait ← overrideNumber v "HAUL_WAIT_BEFORE_UPDATE_MS" s.updates.waitBeforeUpdate
  let period ← overrideNumber v "HAUL_RESYNC_PERIOD_SECS" s.updates.resyncPeriod
  return {
    ingressClass := override v "HAUL_INGRESS_CLASS" id s.ingressClass
    withoutClass := overrideFlag v "HAUL_WATCH_INGRESS_WITHOUT_CLASS" s.withoutClass
    watchNamespace := override v "HAUL_WATCH_NAMESPACE" nonempty s.watchNamespace
    allowCrossNamespace := overrideFlag v "HAUL_ALLOW_CROSS_NAMESPACE" s.allowCrossNamespace
    globalConfigMap := override v "HAUL_CONFIGMAP" some s.globalConfigMap
    tcpConfigMap := override v "HAUL_TCP_SERVICES_CONFIGMAP" some s.tcpConfigMap
    disablePodList := overrideFlag v "HAUL_DISABLE_POD_LIST" s.disablePodList
    certDir := override v "HAUL_CERT_DIR" id s.certDir
    podNamespace := override v "POD_NAMESPACE" nonempty s.podNamespace
    podName := override v "POD_NAME" nonempty s.podName
    metricsAddress := override v "HAUL_METRICS_BIND_ADDR" id s.metricsAddress
    updates := ⟨wait, period⟩
    acme := ⟨override v "HAUL_ACME_SECRET_KEY_NAME" id s.acme.accountKeySecret,
      override v "HAUL_ACME_TOKEN_CONFIGMAP_NAME" id s.acme.tokenConfigMap⟩ }

inductive Fault
  | document (fault : Json.Fault)
  | number (fault : NumberFault)

def Fault.message : Fault → String
  | .document f => f.message
  | .number f => f.message

def ofVariables (v : Variables) : Except Fault Settings :=
  (default.withVariables v).mapError .number

/-- The settings of a document, with the variables that are set. -/
def ofDocument (document : String) (v : Variables) : Except Fault Settings := do
  let s ← (Json.decode format.read document).mapError .document
  (s.withVariables v).mapError .number

end Settings

end IngressCache
