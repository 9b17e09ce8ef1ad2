import IngressCache.Proofs.Acme.Visibility

/-!
# The store of issued certificates

Each issued certificate is in a secret of its own, together with its private key. Writing one and
reading it are separate: an enquiry takes the two texts apart again and says which of them is at
fault first. A name without a namespace and the same name with that of the ACME settings stand for
one secret.
-/

namespace IngressCache

/-! ### Listers that gain an object -/

namespace Lister

variable {α : Type} [ClusterObject α] {l l' : Lister α} {o : α} {k : Key}

/-- The object has come to the lister, and nothing else has changed there. -/
structure Gains (l l' : Lister α) (o : α) : Prop where
  stored : l'.stored? (identity o) = some o
  others : ∀ i ≠ identity o, l'.stored? i = l.stored? i

theorem gains_apply (l : Lister α) (o : α) : l.Gains (l.step (.apply o)) o :=
  ⟨stored?_step_apply_self l o, fun _ hi => stored?_step_apply_ne l hi⟩

theorem Gains.find?_self (h : l.Gains l' o) (ho : identity o = k.identity) :
    l'.find? k = some o := by
  refine find?_of_stored? ?_
  rw [← ho]
  exact h.stored

theorem Gains.find?_of_ne (h : l.Gains l' o) (ho : identity o = k.identity) {j : Key}
    (hj : j ≠ k) : l'.find? j = l.find? j := by
  have hown : j.identity ≠ identity o := fun he => hj (Key.identity_injective (he.trans ho))
  -- A lookup falls back on an object without a namespace, and the new one has its namespace.
  have hbare : { j.identity with ns := none } ≠ identity o := by
    rw [ho]
    exact fun he => nomatch congrArg Identity.ns he
  unfold find? get?
  rw [h.others _ hown, h.others _ hbare]

end Lister

namespace AcmeKeys

variable {a : AcmeKeys}

/-! ### Names of secrets -/

theorem certificateKey_of_parse {name : String} {j : Key} (h : Key.parse name = .ok j) :
    a.certificateKey name = .ok (if j.ns = "" then { j with ns := a.ns } else j) := by
  rw [certificateKey, Key.parseIn, h]
  rfl

theorem legible_certificateKey (hns : '/' ∉ a.ns.toList) {name : String} {k : Key}
    (hk : a.certificateKey name = .ok k) : k.Legible :=
  Key.legible_of_parseIn hns (parseIn_of_certificateKey hk)

/-- The namespace of the settings may be written out. -/
theorem certificateKey_path (hns : '/' ∉ a.ns.toList) {name : String}
    (hplain : '/' ∉ name.toList) (hne : name ≠ "") :
    a.certificateKey (a.ns ++ "/" ++ name) = a.certificateKey name := by
  have hbare : Key.parse name = .ok ⟨"", name⟩ := by
    have h := Key.parse_text (k := ⟨"", name⟩) ⟨by simp, hplain, hne⟩
    rwa [Key.text_of_ns_empty rfl] at h
  have hpath : Key.parse (a.ns ++ "/" ++ name) = .ok ⟨a.ns, name⟩ :=
    Key.parse_path (k := ⟨a.ns, name⟩) ⟨hns, hplain, hne⟩
  rw [certificateKey_of_parse hbare, certificateKey_of_parse hpath]
  split <;> rfl

theorem ne_empty_of_certificateKey {name : String} {k : Key}
    (hk : a.certificateKey name = .ok k) : name ≠ "" := by
  rintro rfl
  cases hk

/-! ### Reading a certificate and its key -/

/-- What an enquiry under a name answers to the two texts of a secret: it names the first of the
checks that fails, and it answers the certificate with its key when none does. -/
inductive ReadsBack (name : String) (certificate privateKey : Bytes) :
    Except Failure IssuedCertificate → Prop
  | certificateBlock {f} (hc : Pem.parse certificate = .error f) :
      ReadsBack name certificate privateKey (.error (.malformed
        s!"error decoding crt of secret {name}: cannot find a proper pem block"))
  | keyBlock {c f} (hc : Pem.parse certificate = .ok c) (hk : Pem.parse privateKey = .error f) :
      ReadsBack name certificate privateKey (.error (.malformed
        s!"error decoding key of secret {name}: cannot find a proper pem block"))
  | certificate {c k f} (hc : Pem.parse certificate = .ok c) (hk : Pem.parse privateKey = .ok k)
      (hinfo : X509.parseDer c.contents = .error f) :
      ReadsBack name certificate privateKey (.error (.malformed
        s!"error parsing crt of secret {name}: {f.message}"))
  | key {c k info} (hc : Pem.parse certificate = .ok c) (hk : Pem.parse privateKey = .ok k)
      (hinfo : X509.parseDer c.contents = .ok info) (hkey : RsaKey.ofDer? k.contents = none) :
      ReadsBack name certificate privateKey (.error (.malformed
        s!"error parsing key of secret {name}: <rsa>"))
  | issued {c k info key} (hc : Pem.parse certificate = .ok c) (hk : Pem.parse privateKey = .ok k)
      (hinfo : X509.parseDer c.contents = .ok info) (hkey : RsaKey.ofDer? k.contents = some key) :
      ReadsBack name certificate privateKey (.ok ⟨info, key⟩)

theorem required_of_get? (name : String) {o : Secret} {key : String} {b : Bytes}
    (h : o.get? key = some b) : required name o key = .ok b := by
  rw [required, h]

theorem readsBack_issuedOf (name : String) {o : Secret} {certificate privateKey : Bytes}
    (hcert : o.get? DataKey.certificate = some certificate)
    (hkey : o.get? DataKey.privateKey = some privateKey) :
    ReadsBack name certificate privateKey (issuedOf name o) := by
  unfold issuedOf
  rw [required_of_get? name hcert, required_of_get? name hkey]
  simp only [bind, Except.bind, blockOf]
  cases hc : Pem.parse certificate with
  | error f => exact .certificateBlock hc
  | ok c =>
    cases hk : Pem.parse privateKey with
    | error f => exact .keyBlock hc hk
    | ok k =>
      dsimp only
      cases hinfo : X509.parseDer c.contents with
      | error f => exact .certificate hc hk hinfo
      | ok info =>
        dsimp only [Except.mapError]
        cases hrsa : RsaKey.ofDer? k.contents with
        | none => exact .key hc hk hinfo hrsa
        | some key => exact .issued hc hk hinfo hrsa

/-! ### Reading what was written -/

theorem issued_eq {name : String} {k : Key} (hk : a.certificateKey name = .ok k)
    (h : k.Legible) (secrets : Lister Secret) :
    a.issued secrets name = match secrets.find? k with
      | some o => issuedOf name o
      | none => .error (.notFound .secret k.text) := by
  unfold issued
  rw [hk]
  simp only [bind, Except.bind]
  rw [Lister.lookup_text secrets h]
  cases secrets.find? k <;> rfl

theorem certificateSecret_eq {name : String} {k : Key} (hk : a.certificateKey name = .ok k)
    (certificate privateKey : Bytes) :
    a.certificateSecret name certificate privateKey = .ok ⟨.ofKey k,
      some ((Dict.empty.insert DataKey.certificate certificate).insert DataKey.privateKey
        privateKey), some tlsType⟩ := by
  rw [certificateSecret, hk]
  rfl

/-- A secret that the lister gains is read under the names of its key, and under no others. -/
theorem issued_of_gains (hns : '/' ∉ a.ns.toList) {k : Key} {certificate privateKey : Bytes}
    {before after : Lister Secret} {o : Secret} (ho : identity o = k.identity)
    (hcert : o.get? DataKey.certificate = some certificate)
    (hkey : o.get? DataKey.privateKey = some privateKey) (hafter : before.Gains after o) :
    (∀ text, a.certificateKey text = .ok k →
      ReadsBack text certificate privateKey (a.issued after text)) ∧
      ∀ other, a.certificateKey other ≠ .ok k → a.issued after other = a.issued before other := by
  have hfind : after.find? k = some o := hafter.find?_self ho
  refine ⟨fun text htext => ?_, fun other hother => ?_⟩
  · rw [issued_eq htext (legible_certificateKey hns htext), hfind]
    exact readsBack_issuedOf text hcert hkey
  · cases hj : a.certificateKey other with
    | error f => rw [issued, issued, hj]; rfl
    | ok j =>
      have hne : j ≠ k := fun he => hother (he ▸ hj)
      have hlegible := legible_certificateKey hns hj
      rw [issued_eq hj hlegible, issued_eq hj hlegible, hafter.find?_of_ne ho hne]

end AcmeKeys

/-! ### Sessions -/

namespace Session

variable {a : AcmeKeys}

/-- The session answers an enquiry under that name to the two texts. -/
def ReadsBack (s : Session) (a : AcmeKeys) (name : String) (certificate privateKey : Bytes) :
    Prop :=
  ∃ r, (s.acmeStep a (.issued name)).2 = .ofResult .issued r ∧
    AcmeKeys.ReadsBack name certificate privateKey r

theorem putSecret_of_setIssued {s : Session} {name : String} {certificate privateKey : Bytes}
    (hdone : (s.acmeStep a (.setIssued name certificate privateKey)).2 = .done) :
    ∃ o, a.certificateSecret name certificate privateKey = .ok o ∧
      (s.acmeStep a (.setIssued name certificate privateKey)).1 = (s.putSecret o).1 ∧
      (s.putSecret o).2 = .ok () := by
  simp only [acmeStep] at hdone ⊢
  cases ho : a.certificateSecret name certificate privateKey with
  | error f =>
    rw [ho] at hdone
    cases hdone
  | ok o =>
    simp only [ho] at hdone ⊢
    refine ⟨o, rfl, rfl, ?_⟩
    cases hput : (s.putSecret o).2 with
    | ok _ => rfl
    | error f =>
      rw [hput] at hdone
      cases hdone

theorem certificateKey_of_certificateSecret {name : String} {certificate privateKey : Bytes}
    {o : Secret} (h : a.certificateSecret name certificate privateKey = .ok o) :
    ∃ k, a.certificateKey name = .ok k := by
  unfold AcmeKeys.certificateSecret at h
  cases hk : a.certificateKey name with
  | error f =>
    rw [hk] at h
    cases h
  | ok k => exact ⟨k, rfl⟩

/-- A certificate that a session has set was sent: its secret was created, or replaced in the version
that the lister had. Once that has reached the lister of a session, in whatever version, the session
reads it back under the name that it was set for, and under the name with the namespace of the
settings in front of it: the certificate and its key, or the fault that is found first. The secret
that is stored has the type of its kind and the two texts, and no more. Under a name that stands for
another secret the answer is the one from before. Where writes come back at once, it has reached the
lister after the call. -/
theorem issued_of_setIssued (hns : '/' ∉ a.ns.toList) {s : Session} {name : String}
    {certificate privateKey : Bytes}
    (hdone : (s.acmeStep a (.setIssued name certificate privateKey)).2 = .done) :
    let before := s.controller.listers.secrets
    let s' := (s.acmeStep a (.setIssued name certificate privateKey)).1
    ∃ k o, a.certificateKey name = .ok k ∧
      a.certificateSecret name certificate privateKey = .ok o ∧
      s'.controller.record.requests =
        s.controller.record.requests ++ [.secret (Write.plan before o)] ∧
      (s.Prompt → ∃ version,
        before.Gains s'.controller.listers.secrets ((Write.plan before o).taken version)) ∧
      ∀ (t : Session) version,
        before.Gains t.controller.listers.secrets ((Write.plan before o).taken version) →
        t.ReadsBack a name certificate privateKey ∧
        ('/' ∉ name.toList → t.ReadsBack a (a.ns ++ "/" ++ name) certificate privateKey) ∧
        (∃ stored data, t.controller.listers.secrets.stored? k.identity = some stored ∧
          stored.type = some "kubernetes.io/tls" ∧ stored.data = some data ∧
          data.toList = [("tls.crt", certificate), ("tls.key", privateKey)]) ∧
        ∀ other, a.certificateKey other ≠ .ok k →
          (t.acmeStep a (.issued other)).2 = (s.acmeStep a (.issued other)).2 := by
  intro before s'
  obtain ⟨o, ho, hs', hput⟩ := putSecret_of_setIssued hdone
  obtain ⟨k, hk⟩ := certificateKey_of_certificateSecret ho
  refine ⟨k, o, hk, ho, ?_, fun hprompt => ?_, fun t version hgains => ?_⟩
  · show (acmeStep s a _).1.controller.record.requests = _
    rw [hs']
    exact requests_of_write_ok hput
  · have hafter : s'.controller.listers.secrets =
        before.step (.apply (Write.plan before o).object) := by
      show (acmeStep s a _).1.controller.listers.secrets = _
      rw [hs']
      exact congrArg Listers.secrets (hprompt.write (isSendable_of_write_ok hput)).2
    refine ⟨version? (Write.plan before o).object, ?_⟩
    rw [hafter]
    exact Lister.gains_apply before _
  · rw [Write.taken_plan] at hgains
    rw [AcmeKeys.certificateSecret_eq hk] at ho
    obtain rfl := Except.ok.inj ho
    let data := (Dict.empty.insert DataKey.certificate certificate).insert DataKey.privateKey
      privateKey
    let stored : Secret := withVersion ⟨.ofKey k, some data, some AcmeKeys.tlsType⟩ version
    have hcert : stored.get? DataKey.certificate = some certificate :=
      (Dict.get?_insert_ne (by decide) _ _).trans (Dict.get?_insert_self _ _ _)
    have hkey : stored.get? DataKey.privateKey = some privateKey := Dict.get?_insert_self _ _ _
    obtain ⟨hread, hothers⟩ := AcmeKeys.issued_of_gains hns (k := k) rfl hcert hkey hgains
    refine ⟨⟨_, rfl, hread name hk⟩, fun hplain => ⟨_, rfl, hread _ ?_⟩,
      ⟨stored, data, hgains.stored, rfl, rfl, rfl⟩, fun other hother => ?_⟩
    · exact (AcmeKeys.certificateKey_path hns hplain
        (AcmeKeys.ne_empty_of_certificateKey hk)).trans hk
    · exact congrArg (Answer.ofResult Answer.issued) (hothers other hother)

/-- A small certificate with its key, set in a session that knows of no secret. -/
theorem issued_of_setIssued_to_empty :
    let certificate := Bytes.ofString ("-----BEGIN CERTIFICATE-----\n" ++
      "ME8wRQIBBTADBgEqMAAwHhcNMjAwMTAxMDAwMDAwWhcNMzAxMjMxMjM1OTU5WjAP\n" ++
      "MQ0wCwYDVQQDDARzaXRlMAgwAwYBKgMBADADBgEqAwEA\n" ++
      "-----END CERTIFICATE-----\n")
    let privateKey := AccountCalls.pair.pem false
    let a := AccountCalls.pair.keys
    let s : Session :=
      ⟨.start .default (.ok a) (.observer fun _ => false), ⟨[], []⟩, true, none⟩
    let set := s.acmeStep a (.setIssued "site" certificate privateKey)
    set.2 = .done ∧ set.1.controller.record.requests.length = 1 ∧
      set.1.ReadsBack a "site" certificate privateKey ∧
      set.1.ReadsBack a "ingress/site" certificate privateKey ∧
      (a.issued set.1.controller.listers.secrets "ingress/site").map
        (fun c => (c.info.commonName, c.key)) = .ok ("site", ⟨187, 3, 27⟩) := by
  intro certificate privateKey a s set
  have hk : a.certificateKey "site" = .ok ⟨"ingress", "site"⟩ := by decide
  have ho := AcmeKeys.certificateSecret_eq hk certificate privateKey
  have hs : s.Prompt := ⟨rfl, rfl, rfl⟩
  have hdone : set.2 = .done := by
    show (acmeStep s a _).2 = _
    simp only [acmeStep, ho]
    refine congrArg (Answer.ofResult fun _ => .done) (hs.write ?_).1
    decide +kernel
  obtain ⟨k, o, -, -, hrequests, hgains, hread⟩ := issued_of_setIssued (by decide) hdone
  obtain ⟨version, hgained⟩ := hgains hs
  obtain ⟨hname, hpath, -, -⟩ := hread set.1 version hgained
  refine ⟨hdone, congrArg List.length hrequests, hname, hpath (by decide), ?_⟩
  decide +kernel

end Session

end IngressCache
