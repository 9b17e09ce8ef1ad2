import IngressCache.Json.Reader
import IngressCache.Json.Value
import IngressCache.Settings.Basic

/-!
# The settings document

Settings as a JSON record. A field that is left out has its default; a setting that may be
absent may also be null.
-/

namespace IngressCache

open Json

/-! ### Updates -/

def UpdateSettings.toJson (u : UpdateSettings) : Value :=
  .object [("wait_before_update_ms", .natural u.waitBeforeUpdate.toNat),
    ("resync_period_secs", .natural u.resyncPeriod.toNat)]

structure UpdateDraft where
  waitBeforeUpdate : Option UInt64
  resyncPeriod : Option UInt64

def UpdateSettings.format : Format UpdateDraft UpdateSettings where
  typeName := "UpdateConfig"
  fields := [
    ⟨"wait_before_update_ms", false, fun d => d.waitBeforeUpdate.isSome,
      fun d => Reader.natural64.map fun v => { d with waitBeforeUpdate := some v }⟩,
    ⟨"resync_period_secs", false, fun d => d.resyncPeriod.isSome,
      fun d => Reader.natural64.map fun v => { d with resyncPeriod := some v }⟩]
  empty := ⟨none, none⟩
  finish d := .ok
    ⟨d.waitBeforeUpdate.getD UpdateSettings.default.waitBeforeUpdate,
      d.resyncPeriod.getD UpdateSettings.default.resyncPeriod⟩

/-! ### ACME -/

def AcmeSettings.toJson (a : AcmeSettings) : Value :=
  .object [("secret_key_name", .text a.accountKeySecret),
    ("token_config_map_name", .text a.tokenConfigMap)]

structure AcmeDraft where
  accountKeySecret : Option String
  tokenConfigMap : Option String

def AcmeSettings.format : Format AcmeDraft AcmeSettings where
  typeName := "AcmeConfig"
  fields := [
    ⟨"secret_key_name", false, fun d => d.accountKeySecret.isSome,
      fun d => (Reader.text "a string").map fun v => { d with accountKeySecret := some v }⟩,
    ⟨"token_config_map_name", false, fun d => d.tokenConfigMap.isSome,
      fun d => (Reader.text "a string").map fun v => { d with tokenConfigMap := some v }⟩]
  empty := ⟨none, none⟩
  finish d := .ok
    ⟨d.accountKeySecret.getD AcmeSettings.default.accountKeySecret,
      d.tokenConfigMap.getD AcmeSettings.default.tokenConfigMap⟩

/-! ### All settings -/

def Settings.toJson (s : Settings) : Value :=
  let textOrNull := Value.ofOption Value.text
  .object [
    ("ingress_class", .text s.ingressClass),
    ("watch_ingress_without_class", .flag s.withoutClass),
    ("watch_namespace", textOrNull s.watchNamespace),
    ("allow_cross_namespace", .flag s.allowCrossNamespace),
    ("global_config_map", textOrNull s.globalConfigMap),
    ("tcp_config_map", textOrNull s.tcpConfigMap),
    ("disable_pod_list", .flag s.disablePodList),
    ("cert_dir", .text s.certDir),
    ("pod_namespace", textOrNull s.podNamespace),
    ("pod_name", textOrNull s.podName),
    ("metrics_bind_addr", .text s.metricsAddress),
    ("updates", s.updates.toJson),
    ("acme", s.acme.toJson)]

/-- The settings as far as they are read. The inner option is the setting's own. -/
structure SettingsDraft where
  ingressClass : Option String
  withoutClass : Option Bool
  watchNamespace : Option (Option String)
  allowCrossNamespace : Option Bool
  globalConfigMap : Option (Option String)
  tcpConfigMap : Option (Option String)
  disablePodList : Option Bool
  certDir : Option String
  podNamespace : Option (Option String)
  podName : Option (Option String)
  metricsAddress : Option String
  updates : Option UpdateSettings
  acme : Option AcmeSettings

def SettingsDraft.empty : SettingsDraft :=
  ⟨none, none, none, none, none, none, none, none, none, none, none, none, none⟩

/-- The settings of a draft: what it gives, and defaults for the rest. -/
def SettingsDraft.settings (d : SettingsDraft) : Settings where
  ingressClass := d.ingressClass.getD Settings.default.ingressClass
  withoutClass := d.withoutClass.getD Settings.default.withoutClass
  watchNamespace := d.watchNamespace.getD Settings.default.watchNamespace
  allowCrossNamespace := d.allowCrossNamespace.getD Settings.default.allowCrossNamespace
  globalConfigMap := d.globalConfigMap.getD Settings.default.globalConfigMap
  tcpConfigMap := d.tcpConfigMap.getD Settings.default.tcpConfigMap
  disablePodList := d.disablePodList.getD Settings.default.disablePodList
  certDir := d.certDir.getD Settings.default.certDir
  podNamespace := d.podNamespace.getD Settings.default.podNamespace
  podName := d.podName.getD Settings.default.podName
  metricsAddress := d.metricsAddress.getD Settings.default.metricsAddress
  updates := d.updates.getD Settings.default.updates
  acme := d.acme.getD Settings.default.acme

def SettingsDraft.fields : List (RecordField SettingsDraft) :=
  let name := Reader.text "a string"
  let optionalName := name.optional
  [⟨"ingress_class", false, fun d => d.ingressClass.isSome,
      fun d => name.map fun v => { d with ingressClass := some v }⟩,
    ⟨"watch_ingress_without_class", false, fun d => d.withoutClass.isSome,
      fun d => Reader.flag.map fun v => { d with withoutClass := some v }⟩,
    ⟨"watch_namespace", false, fun d => d.watchNamespace.isSome,
      fun d => optionalName.map fun v => { d with watchNamespace := some v }⟩,
    ⟨"allow_cross_namespace", false, fun d => d.allowCrossNamespace.isSome,
      fun d => Reader.flag.map fun v => { d with allowCrossNamespace := some v }⟩,
    ⟨"global_config_map", false, fun d => d.globalConfigMap.isSome,
      fun d => optionalName.map fun v => { d with globalConfigMap := some v }⟩,
    ⟨"tcp_config_map", false, fun d => d.tcpConfigMap.isSome,
      fun d => optionalName.map fun v => { d with tcpConfigMap := some v }⟩,
    ⟨"disable_pod_list", false, fun d => d.disablePodList.isSome,
      fun d => Reader.flag.map fun v => { d with disablePodList := some v }⟩,
    ⟨"cert_dir", false, fun d => d.certDir.isSome,
      fun d => (Reader.text "path string").map fun v => { d with certDir := some v }⟩,
    ⟨"pod_namespace", false, fun d => d.podNamespace.isSome,
      fun d => optionalName.map fun v => { d with podNamespace := some v }⟩,
    ⟨"pod_name", false, fun d => d.podName.isSome,
      fun d => optionalName.map fun v => { d with podName := some v }⟩,
    ⟨"metrics_bind_addr", false, fun d => d.metricsAddress.isSome,
      fun d => name.map fun v => { d with metricsAddress := some v }⟩,
    ⟨"updates", false, fun d => d.updates.isSome,
      fun d => UpdateSettings.format.read.map fun v => { d with updates := some v }⟩,
    ⟨"acme", false, fun d => d.acme.isSome,
      fun d => AcmeSettings.format.read.map fun v => { d with acme := some v }⟩]

def Settings.format : Format SettingsDraft Settings where
  typeName := "ControllerConfig"
  fields := SettingsDraft.fields
  empty := .empty
  finish d := .ok d.settings

end IngressCache
