import IngressCache.Json.Plain
import IngressCache.Proofs.Json.Records
import IngressCache.Proofs.Time.WrittenInstant
import IngressCache.Settings.Variables

/-!
# JSON forms lose nothing

Every value is read back from its own text, whatever its texts, numbers and instants are.
-/

namespace IngressCache

open Json

/-! ### Plain values -/

namespace Json.Reader

theorem render_text (t : String) :
    (Value.text t).render = '"' :: (t.toList.flatMap Value.escape ++ ['"']) := by
  simp [Value.render, Value.renderText]

theorem reads_string (expected t : String) :
    (Reader.text expected).Reads (Value.text t).render t := by
  rw [render_text]
  exact reads_text expected Blanks.nil (spells_escape t.toList)

theorem reads_optional_string (expected : String) (t : Option String) :
    (Reader.text expected).optional.Reads (Value.ofOption Value.text t).render t := by
  cases t with
  | none => exact reads_null
  | some t =>
    rw [Value.ofOption, render_text]
    exact reads_optional_text expected Blanks.nil (spells_escape t.toList)

theorem reads_instant_string {t : String} {i : Instant} (h : Rfc3339.parse t = .ok i) :
    Reader.instant.Reads (Value.text t).render i := by
  rw [render_text]
  exact reads_instant Blanks.nil (spells_escape t.toList) h

/-- A form with a text, written as an object of one field. -/
theorem reads_ofText {α : Type} {known : List (Variant α)} {name : String} {f : String → α}
    (h : variantOf known name = .ok (.ofText name f)) (t : String) :
    (Reader.variants known).Reads (Value.object [(name, .text t)]).render (f t) := by
  have hp := (reads_string "a string" t).map f
  have hr := reads_payload (spells_escape name.toList) h hp
  simpa [Value.render, Value.renderFields, Value.renderText] using hr

theorem reads_plain {α : Type} {known : List (Variant α)} {name : String} {a : α}
    (h : variantOf known name = .ok (.plain name a)) :
    (Reader.variants known).Reads (Value.text name).render a := by
  rw [render_text]
  exact reads_bare (spells_escape name.toList) h rfl

end Json.Reader

open Json.Reader

/-! ### Kinds and targets -/

theorem Kind.reads (k : Kind) : Kind.reader.Reads k.toJson.render k := by
  refine reads_plain ?_
  cases k <;> rfl

theorem Target.reads (t : Target) : Target.reader.Reads t.toJson.render t := by
  cases t with
  | hostname h => exact reads_ofText rfl h
  | backend b => exact reads_ofText rfl b
  | userlist u => exact reads_ofText rfl u
  | global => exact reads_plain rfl

/-! ### Records -/

theorem Key.reads (k : Key) : Key.format.read.Reads k.toJson.render k := by
  refine Format.Fills.reads (d := ⟨some k.ns, some k.name⟩) ?_ rfl
  refine .map rfl rfl (reads_string _ _) ?_
  exact .map rfl rfl (reads_string _ _) .done

theorem FileHandle.reads (f : FileHandle) : FileHandle.format.read.Reads f.toJson.render f := by
  refine Format.Fills.reads (d := ⟨some f.filename, some f.hash, none, none⟩) ?_ rfl
  refine .map rfl rfl (reads_string _ _) ?_
  exact .map rfl rfl (reads_string _ _) .done

theorem BundleHandle.reads (b : BundleHandle) :
    BundleHandle.format.read.Reads b.toJson.render b := by
  refine Format.Fills.reads
    (d := ⟨some b.filename, some b.hash, some b.commonName, some b.notAfter⟩) ?_ rfl
  refine .map rfl rfl (reads_string _ _) ?_
  refine .map rfl rfl (reads_string _ _) ?_
  refine .map rfl rfl (reads_string _ _) ?_
  exact .map rfl rfl (reads_instant_string (Rfc3339.parse_render b.notAfter)) .done

theorem UpdateSettings.reads (u : UpdateSettings) :
    UpdateSettings.format.read.Reads u.toJson.render u := by
  refine Format.Fills.reads (d := ⟨some u.waitBeforeUpdate, some u.resyncPeriod⟩) ?_ rfl
  refine .map rfl rfl (reads_natural64 _) ?_
  exact .map rfl rfl (reads_natural64 _) .done

theorem AcmeSettings.reads (a : AcmeSettings) :
    AcmeSettings.format.read.Reads a.toJson.render a := by
  refine Format.Fills.reads (d := ⟨some a.accountKeySecret, some a.tokenConfigMap⟩) ?_ rfl
  refine .map rfl rfl (reads_string _ _) ?_
  exact .map rfl rfl (reads_string _ _) .done

/-- The draft in which every setting is given. -/
def Settings.draft (s : Settings) : SettingsDraft :=
  ⟨some s.ingressClass, some s.withoutClass, some s.watchNamespace, some s.allowCrossNamespace,
    some s.globalConfigMap, some s.tcpConfigMap, some s.disablePodList, some s.certDir,
    some s.podNamespace, some s.podName, some s.metricsAddress, some s.updates, some s.acme⟩

theorem Settings.draft_settings (s : Settings) : s.draft.settings = s := rfl

theorem Settings.reads (s : Settings) : Settings.format.read.Reads s.toJson.render s := by
  refine Format.Fills.reads (d := s.draft) ?_ (congrArg Except.ok s.draft_settings)
  refine .map rfl rfl (reads_string _ _) ?_
  refine .map rfl rfl (reads_flag _) ?_
  refine .map rfl rfl (reads_optional_string _ _) ?_
  refine .map rfl rfl (reads_flag _) ?_
  refine .map rfl rfl (reads_optional_string _ _) ?_
  refine .map rfl rfl (reads_optional_string _ _) ?_
  refine .map rfl rfl (reads_flag _) ?_
  refine .map rfl rfl (reads_string _ _) ?_
  refine .map rfl rfl (reads_optional_string _ _) ?_
  refine .map rfl rfl (reads_optional_string _ _) ?_
  refine .map rfl rfl (reads_string _ _) ?_
  refine .map rfl rfl (UpdateSettings.reads _) ?_
  exact .map rfl rfl (AcmeSettings.reads _) .done

/-! ### Whole texts -/

/-- An encoder and a decoder between which no value is lost: every value is read back from its
text, and so a text of any form that is accepted has the meaning of the one that its value is
written as, which is written again as it is. -/
structure Lossless {α ε : Type} (encode : α → String) (decode : String → Except ε α) : Prop where
  decode_encode (a : α) : decode (encode a) = .ok a
  reencode (t : String) (a : α) (h : decode t = .ok a) :
    decode (encode a) = .ok a ∧ (decode (encode a)).map encode = .ok (encode a)

theorem Lossless.of_decode_encode {α ε : Type} {encode : α → String}
    {decode : String → Except ε α} (h : ∀ a, decode (encode a) = .ok a) :
    Lossless encode decode where
  decode_encode := h
  reencode _ a _ := by
    rw [h a]
    exact ⟨rfl, rfl⟩

theorem decode_toText {α : Type} {r : Reader α} {v : Value} {a : α} (h : r.Reads v.render a) :
    decode r v.toText = .ok a := by
  have hd := decode_of_reads h Blanks.nil
  rwa [List.append_nil] at hd

theorem lossless_of_reads {α : Type} {r : Reader α} {toJson : α → Value}
    (h : ∀ a, r.Reads (toJson a).render a) : Lossless (fun a => (toJson a).toText) (decode r) :=
  .of_decode_encode fun a => decode_toText (h a)

theorem Settings.withVariables_unset (s : Settings) : s.withVariables (fun _ => none) = .ok s := rfl

theorem Settings.ofDocument_toText (s : Settings) :
    Settings.ofDocument s.toJson.toText (fun _ => none) = .ok s := by
  rw [Settings.ofDocument, decode_toText s.reads]
  exact congrArg (Except.mapError Settings.Fault.number) s.withVariables_unset

theorem jsonForms_lossless :
    Lossless (fun k : Kind => k.toJson.toText) (decode Kind.reader) ∧
    Lossless (fun k : Key => k.toJson.toText) (decode Key.format.read) ∧
    Lossless (fun t : Target => t.toJson.toText) (decode Target.reader) ∧
    Lossless (fun f : FileHandle => f.toJson.toText) (decode FileHandle.format.read) ∧
    Lossless (fun b : BundleHandle => b.toJson.toText) (decode BundleHandle.format.read) ∧
    Lossless (fun s : Settings => s.toJson.toText) (Settings.ofDocument · fun _ => none) :=
  ⟨lossless_of_reads Kind.reads, lossless_of_reads Key.reads, lossless_of_reads Target.reads,
    lossless_of_reads FileHandle.reads, lossless_of_reads BundleHandle.reads,
    .of_decode_encode Settings.ofDocument_toText⟩

/-- Texts of other forms: a record with its fields turned around, an unknown one and an escape, a
record as a list, and settings of which one is given in part. -/
theorem jsonForms_lossless_of_loose_texts :
    (decode Key.format.read
        "\x7b\"name\": \"web\", \"x\": [1, \x7b\x7d], \"namespace\": \"sh\\u006fp\"\x7d" =
      .ok ⟨"shop", "web"⟩ ∧
    decode Key.format.read "[\"shop\", \"web\"]" = .ok ⟨"shop", "web"⟩ ∧
    (decode Key.format.read (Key.mk "shop" "web").toJson.toText).map (fun k => k.toJson.toText) =
      .ok (Key.mk "shop" "web").toJson.toText) ∧
    Settings.ofDocument "\x7b\"updates\": [5]\x7d" (fun _ => none) =
      .ok { Settings.default with updates := ⟨5, 600⟩ } ∧
    Settings.ofDocument { Settings.default with updates := ⟨5, 600⟩ }.toJson.toText
        (fun _ => none) = .ok { Settings.default with updates := ⟨5, 600⟩ } := by
  obtain ⟨-, hkey, -, -, -, hsettings⟩ := jsonForms_lossless
  have hlist : decode Key.format.read "[\"shop\", \"web\"]" = .ok ⟨"shop", "web"⟩ := rfl
  have hpart : Settings.ofDocument "\x7b\"updates\": [5]\x7d" (fun _ => none) =
      .ok { Settings.default with updates := ⟨5, 600⟩ } := rfl
  exact ⟨⟨rfl, hlist, (hkey.reencode _ _ hlist).2⟩, hpart, (hsettings.reencode _ _ hpart).1⟩

end IngressCache
