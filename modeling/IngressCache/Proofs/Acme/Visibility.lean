import IngressCache.Proofs.Acme.AccountCalls
import IngressCache.Proofs.Acme.TokenStore
import IngressCache.Proofs.Controller.Receipt

/-!
# ACME objects that the listers see

The ACME adapters read from listers what they wrote to the server. A lister has no more than its
watch brings, and that is what the server lists under the path of the watch. Config maps are watched
in all namespaces; secrets are watched in one namespace only where the settings name one, and they
are written wherever the names of the ACME settings say. An account key that is written outside is
never read back, and every call generates and writes another one.
-/

namespace IngressCache

/-! ### What a watch reaches -/

namespace Kind

def apiRoot : Kind → String
  | ingress => "/apis/networking.k8s.io/v1"
  | _ => "/api/v1"

def plural : Kind → String
  | ingress => "/ingresses"
  | service => "/services"
  | endpoints => "/endpoints"
  | secret => "/secrets"
  | configMap => "/configmaps"
  | pod => "/pods"

end Kind

/-- The path of all objects of a kind, or of those of one namespace. -/
def collectionPath (ns : Option String) (k : Kind) : String :=
  k.apiRoot ++ (match ns with
    | some n => "/namespaces/" ++ n
    | none => "") ++ k.plural

theorem collectionPath_injective {k : Kind} {m n : Option String}
    (h : collectionPath m k = collectionPath n k) : m = n := by
  have hlist := congrArg String.toList h
  simp only [collectionPath, String.toList_append, List.append_left_inj,
    List.append_right_inj] at hlist
  cases m with
  | none =>
    cases n with
    | none => rfl
    | some n => simp [String.toList_append] at hlist
  | some m =>
    cases n with
    | none => simp [String.toList_append] at hlist
    | some n =>
      simp only [String.toList_append, List.append_right_inj] at hlist
      rw [String.toList_inj.1 hlist]

theorem listPath_eq (watched : Option String) (k : Kind) :
    listPath watched k = collectionPath (if k = .configMap then none else watched) k := by
  cases k <;> cases watched <;> rfl

/-- The watch of a kind reaches a namespace. -/
def Covers (watched : Option String) (k : Kind) (ns : String) : Prop :=
  k = .configMap ∨ watched = none ∨ watched = some ns

instance (watched : Option String) (k : Kind) (ns : String) : Decidable (Covers watched k ns) :=
  inferInstanceAs (Decidable (_ ∨ _ ∨ _))

section
variable {α : Type} [ClusterObject α]

/-- The server has the object in its list of that path. -/
def ListedAt (path : String) (o : α) : Prop :=
  ∃ n, (ClusterObject.metadata o).ns = some n ∧
    (path = collectionPath none (ClusterObject.kind α) ∨
      path = collectionPath (some n) (ClusterObject.kind α))

theorem listedAt_listPath_iff {watched : Option String} {o : α} {n : String}
    (hns : (ClusterObject.metadata o).ns = some n) :
    ListedAt (listPath watched (ClusterObject.kind α)) o ↔
      Covers watched (ClusterObject.kind α) n := by
  have hscope : ∀ m, listPath watched (ClusterObject.kind α) =
      collectionPath m (ClusterObject.kind α) ↔
        (if ClusterObject.kind α = .configMap then none else watched) = m := by
    intro m
    rw [listPath_eq]
    exact ⟨collectionPath_injective, fun h => congrArg (collectionPath · _) h⟩
  have hlisted : ListedAt (listPath watched (ClusterObject.kind α)) o ↔
      (if ClusterObject.kind α = .configMap then none else watched) = none ∨
        (if ClusterObject.kind α = .configMap then none else watched) = some n := by
    simp only [ListedAt, hns, Option.some.injEq, exists_eq_left', hscope]
  rw [hlisted, Covers]
  split <;> simp [*]

end

/-! ### Listers and their watches -/

namespace Lister

variable {α : Type}

theorem find?_of_stored? {l : Lister α} {k : Key} {o : α} (h : l.stored? k.identity = some o) :
    l.find? k = some o :=
  get?_of_stored? h

variable [ClusterObject α]

/-- The watch of that path fed the lister, with nothing but objects of its list. -/
def FedFrom (path : String) (l : Lister α) : Prop :=
  ∃ es : List (WatchEvent α), (∀ e ∈ es, ∀ o ∈ e.object?, ListedAt path o) ∧
    es.foldl step empty = l

/-- An object has reached the lister, if the watch of that path covers it. -/
def HasReceived (path : String) (l : Lister α) (o : α) : Prop :=
  ListedAt path o → l.stored? (identity o) = some o

theorem Keeps.foldl {P : α → Prop} {l : Lister α} (h : l.Keeps P) {es : List (WatchEvent α)}
    (hes : ∀ e ∈ es, ∀ o ∈ e.object?, P o) : (es.foldl Lister.step l).Keeps P := by
  induction es generalizing l with
  | nil => exact h
  | cons e es ih =>
    rw [List.forall_mem_cons] at hes
    exact ih (h.step hes.1) hes.2

theorem FedFrom.keeps {path : String} {l : Lister α} (h : l.FedFrom path) :
    l.Keeps (ListedAt path) := by
  obtain ⟨es, hes, rfl⟩ := h
  exact (keeps_empty _).foldl hes

theorem FedFrom.find?_eq {path : String} {l : Lister α} (h : l.FedFrom path) (k : Key) :
    l.find? k = l.stored? k.identity := by
  refine find?_of_namespaced (fun i o hs hnone => ?_) k
  obtain ⟨hi, n, hn, -⟩ := h.keeps.objects i o hs
  exact nomatch (hn.symm.trans (congrArg Identity.ns hi)).trans hnone

theorem FedFrom.identity_of_find? {path : String} {l : Lister α} (h : l.FedFrom path) {k : Key}
    {o : α} (ho : l.find? k = some o) : identity o = k.identity := by
  rw [h.find?_eq] at ho
  exact (h.keeps.objects _ _ ho).1

/-- An object that was written is found exactly where the watch reaches: elsewhere the lister has
none at all. -/
theorem find?_of_hasReceived {watched : Option String} {l : Lister α}
    (hl : l.FedFrom (listPath watched (ClusterObject.kind α))) {o : α} {k : Key}
    (ho : identity o = k.identity)
    (hreceived : l.HasReceived (listPath watched (ClusterObject.kind α)) o) :
    l.find? k = if Covers watched (ClusterObject.kind α) k.ns then some o else none := by
  have hns : ∀ p : α, identity p = k.identity → (ClusterObject.metadata p).ns = some k.ns :=
    fun p hp => congrArg Identity.ns hp
  rw [hl.find?_eq]
  split
  · rename_i hcovers
    rw [← ho]
    exact hreceived ((listedAt_listPath_iff (hns o ho)).2 hcovers)
  · rename_i hcovers
    cases hs : l.stored? k.identity with
    | none => rfl
    | some p =>
      obtain ⟨hp, hlisted⟩ := hl.keeps.objects _ _ hs
      exact absurd ((listedAt_listPath_iff (hns p hp)).1 hlisted) hcovers

end Lister

/-! ### Keys that are read back -/

namespace Key

/-- The watch reaches the namespace of the key, and the written key can be taken apart. -/
def Visible (watched : Option String) (kind : Kind) (k : Key) : Prop :=
  Covers watched kind k.ns ∧ '/' ∉ k.ns.toList

instance (watched : Option String) (kind : Kind) (k : Key) : Decidable (k.Visible watched kind) :=
  inferInstanceAs (Decidable (_ ∧ _))

end Key

namespace Lister

variable {α : Type} [ClusterObject α] {watched : Option String} {l : Lister α} {o : α} {k : Key}

theorem lookup_of_visible (hl : l.FedFrom (listPath watched (ClusterObject.kind α)))
    (ho : identity o = k.identity)
    (hreceived : l.HasReceived (listPath watched (ClusterObject.kind α)) o)
    (hname : '/' ∉ k.name.toList ∧ k.name ≠ "") (h : k.Visible watched (ClusterObject.kind α)) :
    l.lookup k.text = .ok o := by
  rw [lookup_text l ⟨h.2, hname.1, hname.2⟩, find?_of_hasReceived hl ho hreceived, if_pos h.1]

theorem lookup_of_not_visible (hl : l.FedFrom (listPath watched (ClusterObject.kind α)))
    (ho : identity o = k.identity)
    (hreceived : l.HasReceived (listPath watched (ClusterObject.kind α)) o)
    (hname : '/' ∉ k.name.toList ∧ k.name ≠ "") (h : ¬k.Visible watched (ClusterObject.kind α)) :
    ∃ f, l.lookup k.text = .error f ∧ ∀ text, f ≠ .malformed text := by
  by_cases hns : '/' ∈ k.ns.toList
  · obtain ⟨f, hf⟩ := Key.parse_text_of_slash hns
    refine ⟨.badKey f, ?_, by simp⟩
    rw [lookup, Key.require, hf]
    rfl
  · have hcovers : ¬Covers watched (ClusterObject.kind α) k.ns := fun hc => h ⟨hc, hns⟩
    refine ⟨.notFound (ClusterObject.kind α) k.text, ?_, by simp⟩
    rw [lookup_text l ⟨hns, hname.1, hname.2⟩, find?_of_hasReceived hl ho hreceived,
      if_neg hcovers]

end Lister

/-! ### Calls that find the key -/

theorem Controller.unwatched_accountKeys : Unwatched (·.metrics.accountKeys) where
  listers _ _ := rfl
  warn _ _ := rfl
  noteListing _ _ := rfl
  notify c e := by
    cases h : c.store.loses e with
    | true => rw [(notify_of_loses h).2.2]
    | false =>
      rw [(notify_of_not_loses h).2.2]
      rfl

namespace Session

theorem accountKeys_write (s : Session) (k : Kind) (o : k.Object) (r : Request) :
    (s.write k o r).1.controller.metrics.accountKeys = s.controller.metrics.accountKeys := by
  refine (Controller.unwatched_accountKeys.write s k o r).trans ?_
  unfold send
  split <;> rfl

/-- A call that loads no key and answers one has generated it. -/
theorem accountKeys_of_load_error {s : Session} {a : AcmeKeys} {f : Failure}
    (hload : a.loadAccountKey AccountKey.read s.controller.listers.secrets = .error f)
    {key : AccountKey} (h : (s.accountKey a).2 = .ok key) :
    (s.accountKey a).1.controller.metrics.accountKeys =
      s.controller.metrics.accountKeys + 1 := by
  have hwrite : ∀ ws, (putSecret { s with controller := s.controller.warn ws }
      (a.accountSecret generatedMark)).1.controller.metrics.accountKeys =
        s.controller.metrics.accountKeys := fun ws => accountKeys_write _ _ _ _
  unfold accountKey at h ⊢
  rw [hload] at h ⊢
  simp only at h ⊢
  specialize hwrite (if f.toClass = .notFound then [] else [.accountKey f])
  revert h hwrite
  generalize putSecret _ _ = answer
  intro h hwrite
  rcases answer with ⟨s', f' | ⟨⟩⟩
  · cases h
  · exact congrArg (· + 1) hwrite

/-- Only a call that loads the key answers it without doing anything else. -/
theorem accountKey_eq_iff (s : Session) (a : AcmeKeys) (key : AccountKey) :
    s.accountKey a = (s, .ok key) ↔
      a.loadAccountKey AccountKey.read s.controller.listers.secrets = .ok key := by
  cases hload : a.loadAccountKey AccountKey.read s.controller.listers.secrets with
  | ok k => simp [accountKey, hload]
  | error f =>
    constructor
    · intro h
      have hcount := accountKeys_of_load_error hload (congrArg Prod.snd h)
      rw [h] at hcount
      exact absurd hcount.symm (Nat.succ_ne_self _)
    · intro h
      cases h

end Session

/-! ### What is read back -/

/-- The object that the server has when it has taken a write. -/
def Write.taken {α : Type} [ClusterObject α] (w : Write α) (version : Option String) : α :=
  withVersion w.object version

theorem Write.exists_object_plan (l : Lister Secret) (o : Secret) :
    ∃ version, (plan l o).object = withVersion o version := by
  unfold plan
  split
  · exact ⟨_, rfl⟩
  · exact ⟨version? o, rfl⟩

theorem Write.taken_plan (l : Lister Secret) (o : Secret) (version : Option String) :
    (plan l o).taken version = withVersion o version := by
  obtain ⟨v, hv⟩ := exists_object_plan l o
  rw [taken, hv]
  rfl

/-- What fails was found, and could not be read. -/
def FailsMalformed {β : Type} (r : Except Failure β) : Prop :=
  ∀ f, r = .error f → ∃ text, f = .malformed text

namespace FailsMalformed

variable {β γ : Type}

theorem ok (b : β) : FailsMalformed (.ok b) :=
  fun _ h => nomatch h

theorem malformed (text : String) : FailsMalformed (.error (.malformed text) : Except Failure β) :=
  fun _ h => ⟨text, (Except.error.inj h).symm⟩

theorem bind {r : Except Failure β} (hr : FailsMalformed r) {g : β → Except Failure γ}
    (hg : ∀ b, FailsMalformed (g b)) : FailsMalformed (r >>= g) := by
  cases r with
  | ok b => exact hg b
  | error f =>
    obtain ⟨text, rfl⟩ := hr f rfl
    exact .malformed text

end FailsMalformed

namespace AcmeKeys

variable {a : AcmeKeys} {watched : Option String}

theorem loadAccountKey_eq_ok_iff {κ : Type} {read : Bytes → Except RsaKey.Fault κ} {key : κ}
    {encoded : Bytes} (hread : read encoded = .ok key) {secrets before : Lister Secret}
    (hsecrets : secrets.FedFrom (listPath watched .secret)) {version : Option String}
    (hreceived : secrets.HasReceived (listPath watched .secret)
      ((Write.plan before (a.accountSecret encoded)).taken version))
    (hname : '/' ∉ a.account.name.toList ∧ a.account.name ≠ "") :
    a.loadAccountKey read secrets = .ok key ↔ a.account.Visible watched .secret := by
  rw [Write.taken_plan] at hreceived
  have hidentity : identity (withVersion (a.accountSecret encoded) version) =
      a.account.identity := rfl
  constructor
  · intro hload
    by_contra hvisible
    obtain ⟨f, hf, -⟩ :=
      Lister.lookup_of_not_visible hsecrets hidentity hreceived hname hvisible
    unfold loadAccountKey at hload
    rw [hf] at hload
    cases hload
  · intro hvisible
    have hget : (withVersion (a.accountSecret encoded) version).get? DataKey.privateKey =
        some encoded := Dict.get?_insert_self _ _ _
    unfold loadAccountKey
    rw [Lister.lookup_of_visible hsecrets hidentity hreceived hname hvisible]
    simp only [bind, Except.bind, hget, hread]

theorem failsMalformed_issuedOf (name : String) (o : Secret) :
    FailsMalformed (issuedOf name o) := by
  have hrequired : ∀ key, FailsMalformed (required name o key) := by
    intro key
    unfold required
    split
    · exact .ok _
    · exact .malformed _
  have hblock : ∀ what b, FailsMalformed (blockOf name what b) := by
    intro what b
    unfold blockOf
    split
    · exact .ok _
    · exact .malformed _
  unfold issuedOf
  refine (hrequired _).bind fun certificate => (hrequired _).bind fun privateKey =>
    (hblock _ _).bind fun certificate => (hblock _ _).bind fun privateKey => .bind ?_ fun info => ?_
  · cases X509.parseDer certificate with
    | ok info => exact .ok info
    | error f => exact .malformed _
  · split
    · exact .ok _
    · exact .malformed _

theorem parseIn_of_certificateKey {name : String} {k : Key} (h : a.certificateKey name = .ok k) :
    Key.parseIn a.ns name = .ok k := by
  unfold certificateKey at h
  cases hparse : Key.parseIn a.ns name with
  | error f =>
    rw [hparse] at h
    cases h
  | ok j =>
    rw [hparse] at h
    exact congrArg Except.ok (Except.ok.inj h)

theorem issued_eq_iff {name : String} {certificate privateKey : Bytes} {o : Secret} {k : Key}
    (hk : a.certificateKey name = .ok k)
    (ho : a.certificateSecret name certificate privateKey = .ok o) {secrets before : Lister Secret}
    (hsecrets : secrets.FedFrom (listPath watched .secret)) {version : Option String}
    (hreceived : secrets.HasReceived (listPath watched .secret)
      ((Write.plan before o).taken version)) :
    a.issued secrets name = issuedOf name o ↔ k.Visible watched .secret := by
  rw [Write.taken_plan] at hreceived
  have hname := Key.plain_of_parseIn (parseIn_of_certificateKey hk)
  have hidentity : identity (withVersion o version) = k.identity := by
    rw [certificateSecret, hk] at ho
    obtain rfl := Except.ok.inj ho
    rfl
  have hissued : a.issued secrets name = (secrets.lookup k.text).bind (issuedOf name) := by
    rw [issued, hk]
    rfl
  rw [hissued]
  constructor
  · intro heq
    by_contra hvisible
    obtain ⟨f, hf, hfound⟩ :=
      Lister.lookup_of_not_visible hsecrets hidentity hreceived hname hvisible
    rw [hf] at heq
    obtain ⟨text, rfl⟩ := failsMalformed_issuedOf name o f heq.symm
    exact hfound text rfl
  · intro hvisible
    rw [Lister.lookup_of_visible hsecrets hidentity hreceived hname hvisible]
    rfl

theorem token_eq_iff {maps before : Lister ConfigMap}
    (hmaps : maps.FedFrom (listPath watched .configMap))
    (hbefore : before.FedFrom (listPath watched .configMap)) {domain uri token : String}
    {version : Option String}
    (hreceived : maps.HasReceived (listPath watched .configMap)
      ((Write.plan before (a.withToken before domain uri token)).taken version))
    (hname : '/' ∉ a.tokens.name.toList ∧ a.tokens.name ≠ "") :
    a.token maps domain uri = token ↔ a.tokens.Visible watched .configMap ∨ token = "" := by
  by_cases hns : '/' ∈ a.tokens.ns.toList
  · have hvisible : ¬a.tokens.Visible watched .configMap := fun h => h.2 hns
    rw [token_of_slash hns, eq_comm]
    exact (or_iff_right hvisible).symm
  · have ha : a.tokens.Legible := ⟨hns, hname.1, hname.2⟩
    let turn : TokenTurn := ⟨⟨domain, uri, token⟩, version, []⟩
    have hidentity : identity (a.written before turn) = a.tokens.identity := by
      rw [written_eq ha]
      cases hfound : before.find? a.tokens with
      | none => rfl
      | some m =>
        have hm : identity m = a.tokens.identity := hbefore.identity_of_find? hfound
        exact hm
    have hfind : maps.find? a.tokens = some (a.written before turn) :=
      (Lister.find?_of_hasReceived hmaps hidentity hreceived).trans (if_pos (.inl rfl))
    have hentry : (a.written before turn).content.get? domain = turn.token.entry? := by
      rw [content_written ha]
      exact Token.get?_put_self _ turn.token
    have htoken : a.token maps domain uri = token := by
      rw [token_eq ha, hfind]
      show (((a.written before turn).content.get? domain).bind (tokenOf uri)).getD "" = token
      rw [hentry]
      by_cases hempty : token = ""
      · simp [Token.entry?, turn, hempty]
      · simp [Token.entry?, turn, hempty, tokenOf_entry]
    exact iff_of_true htoken (.inl ⟨.inl rfl, hns⟩)

end AcmeKeys

/-! ### Sessions -/

/-- The listers of secrets and of config maps have what their watches brought. -/
structure Listers.Fed (watched : Option String) (ls : Listers) : Prop where
  secrets : ls.secrets.FedFrom (listPath watched .secret)
  configMaps : ls.configMaps.FedFrom (listPath watched .configMap)

namespace Session

/-- Once a written object has reached the lister, if its watch covers it, then a call for the
account key answers the written one and does nothing else, a certificate is read as it was written,
and so is a token: for secrets exactly where the watched namespace is the one of the secret, or none
is set, and for tokens always, if only the namespaces have no slashes. -/
theorem finds_written_iff_visible {settings : Settings} {a : AcmeKeys}
    (ha : settings.acmeKeys = .ok a) {s : Session} {before : Listers}
    (hs : s.controller.listers.Fed settings.watchNamespace)
    (hbefore : before.Fed settings.watchNamespace) :
    (∀ encoded key version, AccountKey.read encoded = .ok key →
      s.controller.listers.secrets.HasReceived (listPath settings.watchNamespace .secret)
        ((Write.plan before.secrets (a.accountSecret encoded)).taken version) →
      (s.accountKey a = (s, .ok key) ↔ a.account.Visible settings.watchNamespace .secret)) ∧
    (∀ name certificate privateKey o k version, a.certificateKey name = .ok k →
      a.certificateSecret name certificate privateKey = .ok o →
      s.controller.listers.secrets.HasReceived (listPath settings.watchNamespace .secret)
        ((Write.plan before.secrets o).taken version) →
      (a.issued s.controller.listers.secrets name = AcmeKeys.issuedOf name o ↔
        k.Visible settings.watchNamespace .secret)) ∧
    ∀ domain uri token version,
      s.controller.listers.configMaps.HasReceived (listPath settings.watchNamespace .configMap)
        ((Write.plan before.configMaps
          (a.withToken before.configMaps domain uri token)).taken version) →
      (a.token s.controller.listers.configMaps domain uri = token ↔
        a.tokens.Visible settings.watchNamespace .configMap ∨ token = "") := by
  obtain ⟨haccount, htokens⟩ := Settings.of_acmeKeys ha
  refine ⟨fun encoded key version hread hreceived => ?_,
    fun name certificate privateKey o k version hk ho hreceived => ?_,
    fun domain uri token version hreceived => ?_⟩
  · rw [accountKey_eq_iff]
    exact AcmeKeys.loadAccountKey_eq_ok_iff hread hs.secrets hreceived
      (Key.plain_of_parseIn haccount)
  · exact AcmeKeys.issued_eq_iff hk ho hs.secrets hreceived
  · exact AcmeKeys.token_eq_iff hs.configMaps hbefore.configMaps hreceived
      (Key.plain_of_parseIn htokens)

/-- The watched namespace is that of the controller. The lister of secrets has the account key and
a certificate, the one of config maps a token. -/
theorem finds_written_iff_visible_of_same_namespace :
    let settings : Settings :=
      { Settings.default with watchNamespace := some "ingress", podNamespace := some "ingress" }
    let certificate := Bytes.ofString ("-----BEGIN CERTIFICATE-----\n" ++
      "MIGEMHCgAwIBAgIBBTAFBgMrZXAwETEPMA0GA1UEAwwGaXNzdWVyMB4XDTIwMDEw\n" ++
      "MTAwMDAwMFoXDTMwMTIzMTIzNTk1OVowADAqMAUGAytlcAMhAAABAgMEBQYHCAkK\n" ++
      "CwwNDg8QERITFBUWFxgZGhscHR4fMAUGAytlcAMJAFpaWlpaWlpa\n" ++
      "-----END CERTIFICATE-----\n")
    ∃ (a : AcmeKeys) (o : Secret), settings.acmeKeys = .ok a ∧
      a.certificateSecret "site" certificate (AccountCalls.pair.pem false) = .ok o ∧
      let ls := (((Listers.empty false).step .secret (.apply (a.accountSecret generatedMark))).step
        .secret (.apply o)).step .configMap (.apply (a.withToken .empty "example.com" "/c" "one"))
      let start := Controller.start settings settings.acmeKeys (.observer fun _ => false)
      let s : Session := ⟨{ start with listers := ls }, ⟨[], []⟩, false, none⟩
      s.accountKey a = (s, .ok .generated) ∧
        a.issued ls.secrets "site" = AcmeKeys.issuedOf "site" o ∧
        a.token ls.configMaps "example.com" "/c" = "one" := by
  intro settings certificate
  let a : AcmeKeys := ⟨⟨"ingress", "acme-private-key"⟩, ⟨"ingress", "acme-validation-tokens"⟩,
    "ingress"⟩
  let o : Secret := ⟨.ofKey ⟨"ingress", "site"⟩,
    some ((Dict.empty.insert DataKey.certificate certificate).insert DataKey.privateKey
      (AccountCalls.pair.pem false)), some AcmeKeys.tlsType⟩
  have ha : settings.acmeKeys = .ok a := by decide
  have hk : a.certificateKey "site" = .ok ⟨"ingress", "site"⟩ := by decide
  have ho : a.certificateSecret "site" certificate (AccountCalls.pair.pem false) = .ok o := by
    rw [AcmeKeys.certificateSecret, hk]
    rfl
  refine ⟨a, o, ha, ho, ?_⟩
  intro ls start s
  have hlisted : ∀ p : Secret, (ClusterObject.metadata p).ns = some "ingress" →
      ListedAt (listPath settings.watchNamespace .secret) p :=
    fun p hp => (listedAt_listPath_iff hp).2 (.inr (.inr rfl))
  have hsecrets : ls.secrets.FedFrom (listPath settings.watchNamespace .secret) := by
    refine ⟨[.apply (a.accountSecret generatedMark), .apply o], ?_, rfl⟩
    simp only [List.forall_mem_cons, List.not_mem_nil, false_imp_iff, implies_true, and_true,
      WatchEvent.object?, Option.mem_some_iff, forall_eq']
    exact ⟨hlisted _ rfl, hlisted _ rfl⟩
  have hmaps : ls.configMaps.FedFrom (listPath settings.watchNamespace .configMap) := by
    refine ⟨[.apply (a.withToken .empty "example.com" "/c" "one")], ?_, rfl⟩
    simp only [List.forall_mem_cons, List.not_mem_nil, false_imp_iff, implies_true, and_true,
      WatchEvent.object?, Option.mem_some_iff, forall_eq']
    exact (listedAt_listPath_iff (n := "ingress") (by decide)).2 (.inl rfl)
  have hempty : (Listers.empty false).Fed settings.watchNamespace :=
    ⟨⟨[], by simp, rfl⟩, ⟨[], by simp, rfl⟩⟩
  obtain ⟨haccount, hissued, htoken⟩ := finds_written_iff_visible ha (s := s) ⟨hsecrets, hmaps⟩
    hempty
  have hread : AccountKey.read generatedMark = .ok .generated := if_pos rfl
  exact ⟨(haccount generatedMark .generated none hread fun _ => rfl).2 (by decide),
    (hissued "site" certificate (AccountCalls.pair.pem false) o _ none hk ho fun _ => rfl).2
      (by decide),
    (htoken "example.com" "/c" "one" none fun _ => by decide).2 (.inl (by decide))⟩

/-- Only the namespace `team-a` is watched. The server sends the config map of tokens, which is
watched everywhere, and the token is found. It has nothing to send for the account key, which is in
the namespace of the controller: the second call generates a key and writes it again. -/
theorem accountKey_written_twice_of_other_namespace :
    let settings : Settings :=
      { Settings.default with watchNamespace := some "team-a", podNamespace := some "ingress" }
    let a : AcmeKeys := ⟨⟨"ingress", "acme-private-key"⟩, ⟨"ingress", "acme-validation-tokens"⟩,
      "ingress"⟩
    let account := a.accountSecret generatedMark
    let tokens := a.withToken .empty "example.com" "/c" "one"
    let setup : Setup := ⟨settings, settings.podNamespace, .observer fun _ => false, none, false, [],
      some ⟨.of [], .of [], .of [], .of [], .of [], none⟩⟩
    let steps : List Step := [.acme (.setToken "example.com" "/c" "one"),
      .supply (.line .configMap (.applied (withVersion tokens (some "1")))),
      .acme (.token "example.com" "/c"), .acme .accountKey, .acme .accountKey]
    settings.acmeKeys = .ok a ∧
      ¬ListedAt (listPath settings.watchNamespace .secret) account ∧
      (run setup steps).toOption.map (fun r => r.2.map fun e =>
        (match e.answer with
          | .text t => some t
          | .accountKey .generated => some "generated"
          | _ => none, e.record.requests)) =
        some [(none, [.configMap (.create tokens)]), (none, []), (some "one", []),
          (some "generated", [.secret (.create account)]),
          (some "generated", [.secret (.create account)])] := by
  intro settings a account tokens setup steps
  refine ⟨by decide, fun h => ?_, by decide +kernel⟩
  have hcovers := (listedAt_listPath_iff (o := account) rfl).1 h
  revert hcovers
  decide

end Session

end IngressCache
