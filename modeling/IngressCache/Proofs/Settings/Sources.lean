import IngressCache.Proofs.Json.Records
import IngressCache.Settings.Variables
import IngressCache.Watch.Stream

/-!
# The same setting in a document and in a variable

Ten settings are texts that have both a field of the document and a variable. Given alone, with
the same text, the two lead to the same settings, unless the text is empty and the setting one
that may be absent: there the variable takes an empty text away and the document keeps it.
-/

namespace IngressCache

open Json

/-! ### Documents with one text -/

namespace Json

/-- A text under the names of a path, in objects of one field each, with blanks around every
part. -/
inductive TextAt (v : String) : List String → List Char → Prop
  | text {b q : List Char} (hb : Blanks b) (h : Spells q v.toList) : TextAt v [] (b ++ '"' :: q)
  | object {name : String} {path : List String} {b c d e q s : List Char} (hb : Blanks b)
      (hc : Blanks c) (hd : Blanks d) (he : Blanks e) (hq : Spells q name.toList)
      (h : TextAt v path s) :
      TextAt v (name :: path)
        (b ++ '\x7b' :: (c ++ '"' :: (q ++ (d ++ ':' :: (s ++ (e ++ ['\x7d']))))))

variable {α β δ : Type} {v : String} {path : List String} {s : List Char}

theorem TextAt.reads_text (expected : String) (h : TextAt v [] s) :
    (Reader.text expected).Reads s v := by
  cases h with
  | text hb hq => exact Reader.reads_text expected hb hq

theorem TextAt.reads_optional_text (expected : String) (h : TextAt v [] s) :
    (Reader.text expected).optional.Reads s (some v) := by
  cases h with
  | text hb hq => exact Reader.reads_optional_text expected hb hq

/-- An object of one field that the record knows gives the empty draft that field. -/
theorem TextAt.reads_object {f : Format δ α} {r : Reader β} {set : δ → β → δ} {isSet : δ → Bool}
    {required : Bool} {x : β} {a : α} {key name : String}
    (hf : f.fields.find? (fun x => x.name == name) =
      some ⟨key, required, isSet, fun d => r.map (set d)⟩)
    (hu : isSet f.empty = false) (hr : ∀ s, TextAt v path s → r.Reads s x)
    (ha : f.finish (set f.empty x) = .ok a) (h : TextAt v (name :: path) s) : f.read.Reads s a := by
  cases h with
  | @object _ _ b c d e q s hb hc hd he hq h =>
    intro rest _
    have hv := (hr s h).map (set f.empty)
    have hfollows : Follows (e ++ '\x7d' :: rest) := he.follows (follows_mark (by simp) _)
    -- Two steps read the object: one takes the field, one finds the end.
    have hobject (fuel : Nat) (hl : 2 ≤ fuel) : f.readFields fuel true f.empty
        (c ++ '"' :: (q ++ (d ++ ':' :: (s ++ (e ++ '\x7d' :: rest))))) =
        .ok (set f.empty x, rest) := by
      obtain ⟨fuel, rfl⟩ := Nat.exists_eq_add_of_le' hl
      have hstep := f.readFields_field hc hd hq hf hu hv hfollows (fuel + 1) true
      exact hstep.trans (f.readFields_close he fuel false _ rest)
    have hl : 2 ≤ (c ++ '"' :: (q ++ (d ++ ':' :: (s ++ (e ++ '\x7d' :: rest))))).length + 1 := by
      simp only [List.length_append, List.length_cons]
      omega
    have hread := Format.read_brace hb (hobject _ hl) ha
    simpa only [List.append_assoc, List.cons_append, List.nil_append] using hread

end Json

/-! ### Settings that are texts -/

/-- A setting that is a text and has a field and a variable. -/
inductive TextSetting
  | ingressClass
  | watchNamespace
  | globalConfigMap
  | tcpConfigMap
  | certDir
  | metricsAddress
  | accountKeySecret
  | tokenConfigMap
  | podNamespace
  | podName
  deriving DecidableEq

namespace TextSetting

/-- The names of the fields that lead to the setting, from the outermost. -/
def path : TextSetting → List String
  | ingressClass => ["ingress_class"]
  | watchNamespace => ["watch_namespace"]
  | globalConfigMap => ["global_config_map"]
  | tcpConfigMap => ["tcp_config_map"]
  | certDir => ["cert_dir"]
  | metricsAddress => ["metrics_bind_addr"]
  | accountKeySecret => ["acme", "secret_key_name"]
  | tokenConfigMap => ["acme", "token_config_map_name"]
  | podNamespace => ["pod_namespace"]
  | podName => ["pod_name"]

def variableName : TextSetting → String
  | ingressClass => "HAUL_INGRESS_CLASS"
  | watchNamespace => "HAUL_WATCH_NAMESPACE"
  | globalConfigMap => "HAUL_CONFIGMAP"
  | tcpConfigMap => "HAUL_TCP_SERVICES_CONFIGMAP"
  | certDir => "HAUL_CERT_DIR"
  | metricsAddress => "HAUL_METRICS_BIND_ADDR"
  | accountKeySecret => "HAUL_ACME_SECRET_KEY_NAME"
  | tokenConfigMap => "HAUL_ACME_TOKEN_CONFIGMAP_NAME"
  | podNamespace => "POD_NAMESPACE"
  | podName => "POD_NAME"

/-- Variables of which only the one of the setting is set. -/
def only (x : TextSetting) (v : String) : Variables := fun name =>
  if name = x.variableName then some v else none

/-- The draft of a document that gives only this setting. -/
def draft (x : TextSetting) (v : String) : SettingsDraft :=
  match x with
  | ingressClass => { SettingsDraft.empty with ingressClass := some v }
  | watchNamespace => { SettingsDraft.empty with watchNamespace := some (some v) }
  | globalConfigMap => { SettingsDraft.empty with globalConfigMap := some (some v) }
  | tcpConfigMap => { SettingsDraft.empty with tcpConfigMap := some (some v) }
  | certDir => { SettingsDraft.empty with certDir := some v }
  | metricsAddress => { SettingsDraft.empty with metricsAddress := some v }
  | accountKeySecret =>
    { SettingsDraft.empty with acme := some { AcmeSettings.default with accountKeySecret := v } }
  | tokenConfigMap =>
    { SettingsDraft.empty with acme := some { AcmeSettings.default with tokenConfigMap := v } }
  | podNamespace => { SettingsDraft.empty with podNamespace := some (some v) }
  | podName => { SettingsDraft.empty with podName := some (some v) }

/-- The document is accepted and gives only this setting. -/
def Sets (x : TextSetting) (v : String) (document : String) : Prop :=
  decode Settings.format.drafts.read document = .ok (x.draft v)

theorem reads_draft (x : TextSetting) {v : String} {s : List Char} (h : TextAt v x.path s) :
    Settings.format.drafts.read.Reads s (x.draft v) := by
  cases x with
  | ingressClass =>
    exact h.reads_object rfl rfl (fun _ h => h.reads_text "a string") rfl
  | watchNamespace =>
    exact h.reads_object rfl rfl (fun _ h => h.reads_optional_text "a string") rfl
  | globalConfigMap =>
    exact h.reads_object rfl rfl (fun _ h => h.reads_optional_text "a string") rfl
  | tcpConfigMap =>
    exact h.reads_object rfl rfl (fun _ h => h.reads_optional_text "a string") rfl
  | certDir =>
    exact h.reads_object rfl rfl (fun _ h => h.reads_text "path string") rfl
  | metricsAddress =>
    exact h.reads_object rfl rfl (fun _ h => h.reads_text "a string") rfl
  | accountKeySecret =>
    have hacme (s : List Char) (h : TextAt v ["secret_key_name"] s) :
        AcmeSettings.format.read.Reads s { AcmeSettings.default with accountKeySecret := v } :=
      h.reads_object rfl rfl (fun _ h => h.reads_text "a string") rfl
    exact h.reads_object rfl rfl hacme rfl
  | tokenConfigMap =>
    have hacme (s : List Char) (h : TextAt v ["token_config_map_name"] s) :
        AcmeSettings.format.read.Reads s { AcmeSettings.default with tokenConfigMap := v } :=
      h.reads_object rfl rfl (fun _ h => h.reads_text "a string") rfl
    exact h.reads_object rfl rfl hacme rfl
  | podNamespace =>
    exact h.reads_object rfl rfl (fun _ h => h.reads_optional_text "a string") rfl
  | podName =>
    exact h.reads_object rfl rfl (fun _ h => h.reads_optional_text "a string") rfl

theorem sets_of_textAt (x : TextSetting) {v : String} {s b : List Char} (h : TextAt v x.path s)
    (hb : Blanks b) : x.Sets v (String.ofList (s ++ b)) :=
  decode_of_reads (x.reads_draft h) hb

/-! ### Loading -/

theorem ofDocument_of_sets (x : TextSetting) {v document : String} (h : x.Sets v document) :
    Settings.ofDocument document (fun _ => none) = .ok (x.draft v).settings := by
  have hd : decode Settings.format.read document = .ok (x.draft v).settings :=
    Settings.format.decode_of_drafts h rfl
  rw [Settings.ofDocument, hd]
  rfl

/-- The settings of variables of which only the one of the setting is set. -/
def given (x : TextSetting) (v : String) : Settings :=
  match x with
  | ingressClass => { Settings.default with ingressClass := v }
  | watchNamespace => { Settings.default with watchNamespace := nonempty v }
  | globalConfigMap => { Settings.default with globalConfigMap := some v }
  | tcpConfigMap => { Settings.default with tcpConfigMap := some v }
  | certDir => { Settings.default with certDir := v }
  | metricsAddress => { Settings.default with metricsAddress := v }
  | accountKeySecret =>
    { Settings.default with acme := { AcmeSettings.default with accountKeySecret := v } }
  | tokenConfigMap =>
    { Settings.default with acme := { AcmeSettings.default with tokenConfigMap := v } }
  | podNamespace => { Settings.default with podNamespace := nonempty v }
  | podName => { Settings.default with podName := nonempty v }

theorem ofVariables_only (x : TextSetting) (v : String) :
    Settings.ofVariables (x.only v) = .ok (x.given v) := by
  cases x <;> rfl

/-- The settings whose variable takes an empty text for none. -/
def MayBeUnset (x : TextSetting) : Prop :=
  x = watchNamespace ∨ x = podNamespace ∨ x = podName

instance (x : TextSetting) : Decidable x.MayBeUnset :=
  inferInstanceAs (Decidable (x = watchNamespace ∨ x = podNamespace ∨ x = podName))

/-- The two ways lead apart only for a setting that may be unset, and an empty text. -/
theorem settings_eq_given_iff (x : TextSetting) (v : String) :
    (x.draft v).settings = x.given v ↔ ¬ (v = "" ∧ x.MayBeUnset) := by
  constructor
  · rintro h ⟨rfl, rfl | rfl | rfl⟩ <;> exact absurd h (by decide)
  · intro h
    cases x with
    | watchNamespace | podNamespace | podName =>
      have hv : nonempty v = some v := if_neg fun hv => h ⟨hv, by decide⟩
      rw [given, hv]
      rfl
    | _ => rfl

/-- What the empty text of one setting leaves apart, no other setting does. -/
theorem acme_eq_iff (x : TextSetting) (v : String) :
    ((x.draft v).settings.acmeNamespace = (x.given v).acmeNamespace ∧
      (x.draft v).settings.accountKey = (x.given v).accountKey ∧
      (x.draft v).settings.tokens = (x.given v).tokens) ↔ ¬ (v = "" ∧ x = podNamespace) := by
  constructor
  · rintro ⟨h, -, -⟩ ⟨rfl, rfl⟩
    exact absurd h (by decide)
  · intro h
    by_cases hx : v = "" ∧ x.MayBeUnset
    · obtain ⟨rfl, rfl | rfl | rfl⟩ := hx
      · exact ⟨rfl, rfl, rfl⟩
      · exact absurd ⟨rfl, rfl⟩ h
      · exact ⟨rfl, rfl, rfl⟩
    · rw [(x.settings_eq_given_iff v).2 hx]
      exact ⟨rfl, rfl, rfl⟩

theorem scope_eq_iff (x : TextSetting) (v : String) :
    (∀ k, listPath (x.draft v).settings.watchNamespace k = listPath (x.given v).watchNamespace k) ↔
      ¬ (v = "" ∧ x = watchNamespace) := by
  constructor
  · rintro h ⟨rfl, rfl⟩
    exact absurd (h .secret) (by decide)
  · intro h k
    by_cases hx : v = "" ∧ x.MayBeUnset
    · obtain ⟨rfl, rfl | rfl | rfl⟩ := hx
      · exact absurd ⟨rfl, rfl⟩ h
      · rfl
      · rfl
    · rw [(x.settings_eq_given_iff v).2 hx]

end TextSetting

open TextSetting

/-- A setting that a document alone gives, in any form, and its variable with the same text alone:
both are accepted, and what they lead to agrees exactly unless the text is empty and the setting
may be unset. The ACME objects and the watched paths differ for one such setting each. -/
theorem document_eq_variable_iff (x : TextSetting) (v : String) :
    (∀ s b, TextAt v x.path s → Blanks b → x.Sets v (String.ofList (s ++ b))) ∧
    ∀ document, x.Sets v document →
      ∃ s s' : Settings, Settings.ofDocument document (fun _ => none) = .ok s ∧
        Settings.ofVariables (x.only v) = .ok s' ∧
        (s = s' ↔ ¬ (v = "" ∧ x.MayBeUnset)) ∧
        (s.acmeNamespace = s'.acmeNamespace ∧ s.accountKey = s'.accountKey ∧
          s.tokens = s'.tokens ↔ ¬ (v = "" ∧ x = podNamespace)) ∧
        ((∀ k, listPath s.watchNamespace k = listPath s'.watchNamespace k) ↔
          ¬ (v = "" ∧ x = watchNamespace)) :=
  ⟨fun _ _ => x.sets_of_textAt, fun _ h =>
    ⟨_, _, x.ofDocument_of_sets h, x.ofVariables_only v, x.settings_eq_given_iff v,
      x.acme_eq_iff v, x.scope_eq_iff v⟩⟩

/-- A namespace of the pod, in a document of the grammar and in one with an escape and an unknown
field, and an ingress class in a document that is a list. -/
theorem document_eq_variable_of_shop :
    podNamespace.Sets "shop"
      (String.ofList ("\x7b \"pod_namespace\" :\"shop\"\x7d".toList ++ ['\n'])) ∧
    podNamespace.Sets "shop" "\x7b\"color\": [1], \"pod_namespace\": \"sho\\u0070\"\x7d" ∧
    ingressClass.Sets "edge" "[\"edge\"]" ∧
    (∃ s, Settings.ofDocument "\x7b\"color\": [1], \"pod_namespace\": \"sho\\u0070\"\x7d"
        (fun _ => none) = .ok s ∧ Settings.ofVariables (podNamespace.only "shop") = .ok s) ∧
    ∃ s, Settings.ofDocument "[\"edge\"]" (fun _ => none) = .ok s ∧
      Settings.ofVariables (ingressClass.only "edge") = .ok s := by
  have hblank : Blanks [' '] ∧ Blanks ['\n'] := by simp [Blanks, isBlank]
  have htext : TextAt "shop" podNamespace.path "\x7b \"pod_namespace\" :\"shop\"\x7d".toList :=
    .object (b := []) (c := [' ']) (d := [' ']) (e := []) .nil hblank.1 hblank.1 .nil
      (spells_escape _) (.text .nil (spells_escape _))
  have hsets := (document_eq_variable_iff podNamespace "shop").1 _ _ htext hblank.2
  have hescape : podNamespace.Sets "shop"
      "\x7b\"color\": [1], \"pod_namespace\": \"sho\\u0070\"\x7d" := rfl
  have hlist : ingressClass.Sets "edge" "[\"edge\"]" := rfl
  obtain ⟨s, s', hs, hs', heq, -⟩ := (document_eq_variable_iff podNamespace "shop").2 _ hescape
  obtain ⟨u, u', hu, hu', hequ, -⟩ := (document_eq_variable_iff ingressClass "edge").2 _ hlist
  refine ⟨hsets, hescape, hlist, ⟨s, hs, ?_⟩, u, hu, ?_⟩
  · rw [heq.2 (by decide)]
    exact hs'
  · rw [hequ.2 (by decide)]
    exact hu'

/-- With an empty namespace of the pod, or an empty watched namespace, the document leads elsewhere
than the variable: the account key has no namespace, and the secrets are watched under a path
without one. -/
theorem document_ne_variable_of_empty :
    (∃ s s' : Settings, podNamespace.Sets "" "\x7b\"pod_namespace\":\"\"\x7d" ∧
      Settings.ofDocument "\x7b\"pod_namespace\":\"\"\x7d" (fun _ => none) = .ok s ∧
      Settings.ofVariables (podNamespace.only "") = .ok s' ∧ s ≠ s' ∧
      s.acmeNamespace = "" ∧ s'.acmeNamespace = "default" ∧
      s.accountKey = .ok ⟨"", "acme-private-key"⟩ ∧
      s'.accountKey = .ok ⟨"default", "acme-private-key"⟩) ∧
    ∃ s s' : Settings, watchNamespace.Sets "" "\x7b\"watch_namespace\":\"\"\x7d" ∧
      Settings.ofDocument "\x7b\"watch_namespace\":\"\"\x7d" (fun _ => none) = .ok s ∧
      Settings.ofVariables (watchNamespace.only "") = .ok s' ∧ s ≠ s' ∧
      listPath s.watchNamespace .secret = "/api/v1/namespaces//secrets" ∧
      listPath s'.watchNamespace .secret = "/api/v1/secrets" :=
  ⟨⟨_, _, rfl, rfl, rfl, by decide, rfl, rfl, rfl, rfl⟩,
    ⟨_, _, rfl, rfl, rfl, by decide, by decide, by decide⟩⟩

end IngressCache
