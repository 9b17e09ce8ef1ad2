import IngressCache.Proofs.Acme.IssuedStore
import IngressCache.Proofs.Controller.Confinement

/-!
# The certificate that is served and the one that is issued

The store of material looks in the chain of a secret for the first block that is tagged as a
certificate. The reader of issued certificates takes the first block of all, whatever its tag. The
two read the same certificate where the chain begins with it; behind a block of another kind only
the store finds it.
-/

namespace IngressCache

/-! ### The first block -/

namespace Pem

theorem frames_eq (b : Bytes) :
    frames b = match frame b with
      | some (f, rest) => f :: framesFrom (b.length - 1) rest
      | none => [] := by
  cases b with
  | nil => rfl
  | cons x b => rfl

theorem parse_of_parseAll {b : Bytes} {first : Block} {rest : List Block}
    (h : parseAll b = .ok (first :: rest)) : parse b = .ok first := by
  unfold parseAll at h
  rw [frames_eq] at h
  unfold parse
  cases hf : frame b with
  | none =>
    rw [hf] at h
    cases h
  | some x =>
    obtain ⟨f, after⟩ := x
    rw [hf] at h
    simp only [List.mapM_cons, bind, Except.bind] at h ⊢
    cases hb : f.block with
    | error e =>
      rw [hb] at h
      cases h
    | ok block =>
      rw [hb] at h
      simp only at h
      split at h
      · cases h
      · obtain ⟨rfl, -⟩ := List.cons.inj (Except.ok.inj h)
        rfl

end Pem

namespace X509

def certificateTag : String := "CERTIFICATE"

/-- The chain begins with a block that is not tagged as a certificate, and that does not say what
the certificate says. -/
def Hidden (chain : Bytes) (info : CertificateInfo) : Prop :=
  ∃ first, Pem.parse chain = .ok first ∧ first.tag ≠ certificateTag ∧
    parseDer first.contents ≠ .ok info

theorem parseChain_eq_ok {chain : Bytes} {info : CertificateInfo}
    (h : parseChain chain = .ok info) :
    ∃ first rest leaf, Pem.parseAll chain = .ok (first :: rest) ∧
      (first :: rest).find? (fun block => block.tag = certificateTag) = some leaf ∧
      parseDer leaf.contents = .ok info := by
  unfold parseChain at h
  cases hall : Pem.parseAll chain with
  | error f =>
    rw [hall] at h
    cases h
  | ok blocks =>
    rw [hall] at h
    simp only [Except.mapError, bind, Except.bind] at h
    split at h
    · rename_i leaf hleaf
      cases blocks with
      | nil => cases hleaf
      | cons first rest => exact ⟨first, rest, leaf, rfl, hleaf, h⟩
    · cases h

/-- The first block of a chain says what the certificate of the chain says, unless it hides it. -/
theorem parseDer_first_iff_not_hidden {chain : Bytes} {info : CertificateInfo}
    (h : parseChain chain = .ok info) :
    ∃ first, Pem.parse chain = .ok first ∧
      (parseDer first.contents = .ok info ↔ ¬Hidden chain info) := by
  obtain ⟨first, rest, leaf, hall, hleaf, hinfo⟩ := parseChain_eq_ok h
  have hfirst := Pem.parse_of_parseAll hall
  refine ⟨first, hfirst, fun hsays => ?_, fun hnot => ?_⟩
  · rintro ⟨other, hother, -, hne⟩
    obtain rfl := Except.ok.inj (hfirst.symm.trans hother)
    exact hne hsays
  · by_contra hne
    by_cases htag : first.tag = certificateTag
    · -- The block with the tag that comes first is the first of all.
      rw [List.find?_cons_of_pos (by simpa using htag)] at hleaf
      obtain rfl := Option.some.inj hleaf
      exact hne hinfo
    · exact hnot ⟨first, hfirst, htag, hne⟩

end X509

/-! ### The two readers -/

theorem RsaKey.ofPem_eq_ok {b : Bytes} {key : RsaKey} (h : ofPem b = .ok key) :
    ∃ block, Pem.parse b = .ok block ∧ ofDer? block.contents = some key := by
  unfold ofPem at h
  split at h
  · cases h
  · rename_i block hblock
    split at h
    · rename_i k hk
      obtain rfl := Except.ok.inj h
      exact ⟨block, hblock, hk⟩
    · cases h

theorem Lister.find?_of_lookup_text {α : Type} [ClusterObject α] {l : Lister α} {k : Key} {o : α}
    (hname : '/' ∉ k.name.toList ∧ k.name ≠ "") (h : l.lookup k.text = .ok o) :
    k.Legible ∧ l.find? k = some o := by
  have hns : '/' ∉ k.ns.toList := by
    intro hslash
    obtain ⟨f, hf⟩ := Key.parse_text_of_slash hslash
    unfold lookup Key.require at h
    rw [hf] at h
    cases h
  have hk : k.Legible := ⟨hns, hname.1, hname.2⟩
  rw [lookup_text l hk] at h
  cases ho : l.find? k with
  | none =>
    rw [ho] at h
    cases h
  | some p =>
    rw [ho] at h
    exact ⟨hk, congrArg some (Except.ok.inj h)⟩

theorem Secret.render_of_parseChain {s : Secret} (k : Key) {chain privateKey : Bytes}
    {info : CertificateInfo} (hchain : s.get? DataKey.certificate = some chain)
    (hprivate : s.get? DataKey.privateKey = some privateKey)
    (hinfo : X509.parseChain chain = .ok info) :
    ∃ r, s.render k = .ok r ∧ r.material.certificate = some info := by
  unfold render renderBundle
  simp only [hchain, hprivate, hinfo]
  exact ⟨_, rfl, rfl⟩

/-- The store of material knows what the certificate of the chain says. -/
theorem CertStore.certificate_of_parseChain {secrets : Lister Secret} {st : CertStore} {k : Key}
    {s : Secret} {chain privateKey : Bytes} {info : CertificateInfo} (hk : k.Legible)
    (hs : secrets.find? k = some s) (hst : st.CurrentAt secrets k.text)
    (hfiles : ∀ f ∈ k.files, st.directory.Accepts f)
    (hchain : s.get? DataKey.certificate = some chain)
    (hprivate : s.get? DataKey.privateKey = some privateKey)
    (hinfo : X509.parseChain chain = .ok info) :
    ∃ m, (certificate secrets st k).2 = .ok m ∧ m.certificate = some info := by
  obtain ⟨r, hr, hcert⟩ := s.render_of_parseChain k hchain hprivate hinfo
  refine ⟨r.material, ?_, hcert⟩
  rw [certificate_of_currentAt hk hst hfiles, rendering_eq_ok_iff.2 ⟨s, hs, hr⟩]
  rfl

namespace AcmeKeys

variable {a : AcmeKeys} {secrets : Lister Secret} {name : String} {k : Key} {s : Secret}
  {chain privateKey : Bytes} {info : CertificateInfo} {key : RsaKey}

/-- With a readable key, the answer to an enquiry is what the first block of the chain says. -/
theorem info_issuedOf_iff (hchain : s.get? DataKey.certificate = some chain)
    (hprivate : s.get? DataKey.privateKey = some privateKey)
    (hkey : RsaKey.ofPem privateKey = .ok key) {first : Pem.Block}
    (hfirst : Pem.parse chain = .ok first) :
    (∃ c, issuedOf name s = .ok c ∧ c.info = info) ↔ X509.parseDer first.contents = .ok info := by
  obtain ⟨block, hblock, hder⟩ := RsaKey.ofPem_eq_ok hkey
  have hcase := readsBack_issuedOf name hchain hprivate
  generalize issuedOf name s = answer at hcase ⊢
  cases hcase with
  | certificateBlock hc => cases hfirst.symm.trans hc
  | keyBlock hc hk => cases hblock.symm.trans hk
  | certificate hc hk hinfo =>
    obtain rfl := Except.ok.inj (hfirst.symm.trans hc)
    simp [hinfo]
  | key hc hk hinfo hnone =>
    obtain rfl := Except.ok.inj (hblock.symm.trans hk)
    cases hder.symm.trans hnone
  | issued hc hk hinfo hsome =>
    obtain rfl := Except.ok.inj (hfirst.symm.trans hc)
    simp [hinfo]

/-- Of a secret whose chain and key can be read, the store of material knows what the certificate
of the chain says. An enquiry under a name of that secret answers the same, unless the chain begins
with a block that hides the certificate. -/
theorem issued_eq_served_iff_not_hidden (hk : a.certificateKey name = .ok k)
    (hs : secrets.lookup k.text = .ok s) (hchain : s.get? DataKey.certificate = some chain)
    (hprivate : s.get? DataKey.privateKey = some privateKey)
    (hinfo : X509.parseChain chain = .ok info) (hkey : RsaKey.ofPem privateKey = .ok key) :
    (∀ st : CertStore, st.CurrentAt secrets k.text → (∀ f ∈ k.files, st.directory.Accepts f) →
      ∃ m, (CertStore.certificate secrets st k).2 = .ok m ∧ m.certificate = some info) ∧
    ((∃ c, a.issued secrets name = .ok c ∧ c.info = info) ↔ ¬X509.Hidden chain info) := by
  constructor
  · intro st hst hfiles
    obtain ⟨hlegible, hfind⟩ :=
      Lister.find?_of_lookup_text (Key.plain_of_parseIn (parseIn_of_certificateKey hk)) hs
    exact CertStore.certificate_of_parseChain hlegible hfind hst hfiles hchain hprivate hinfo
  · obtain ⟨first, hfirst, hiff⟩ := X509.parseDer_first_iff_not_hidden hinfo
    have hissued : a.issued secrets name = issuedOf name s := by
      unfold issued
      rw [hk]
      simp only [bind, Except.bind]
      rw [hs]
    rw [hissued, info_issuedOf_iff hchain hprivate hkey hfirst, hiff]

/-! ### A certificate, and the same behind parameters -/

/-- The only block is the certificate of a site. -/
def siteChain : Bytes :=
  Bytes.ofString ("-----BEGIN CERTIFICATE-----\n" ++
    "ME8wRQIBBTADBgEqMAAwHhcNMjAwMTAxMDAwMDAwWhcNMzAxMjMxMjM1OTU5WjAP\n" ++
    "MQ0wCwYDVQQDDARzaXRlMAgwAwYBKgMBADADBgEqAwEA\n" ++
    "-----END CERTIFICATE-----\n")

/-- The parameters of a key exchange come before the certificate. -/
def parametersAhead : Bytes :=
  Bytes.ofString ("-----BEGIN DH PARAMETERS-----\n" ++
    "MAYCARcCAQU=\n" ++
    "-----END DH PARAMETERS-----\n") ++ siteChain

def siteInfo : CertificateInfo :=
  ⟨"site", [], ⟨⟨2030, 12, 31, rfl⟩, ⟨23, 59, 59, 0⟩⟩⟩

/-- The chain with a small key. -/
def siteSecret (chain : Bytes) : Secret where
  metadata := .ofKey ⟨"ingress", "site"⟩
  data := some ((Dict.empty.insert DataKey.certificate chain).insert DataKey.privateKey
    (AccountCalls.pair.pem false))
  type := none

def withSite (chain : Bytes) : Lister Secret :=
  Lister.empty.step (.apply (siteSecret chain))

theorem parseChain_siteChain : X509.parseChain siteChain = .ok siteInfo := by
  decide +kernel

theorem issued_eq_served_of_site :
    (∃ m, (CertStore.certificate (withSite siteChain) .empty ⟨"ingress", "site"⟩).2 = .ok m ∧
      m.certificate = some siteInfo) ∧
    ∃ c, AccountCalls.pair.keys.issued (withSite siteChain) "site" = .ok c ∧ c.info = siteInfo := by
  have hk : AccountCalls.pair.keys.certificateKey "site" = .ok ⟨"ingress", "site"⟩ := by decide
  have hs : (withSite siteChain).lookup (Key.text ⟨"ingress", "site"⟩) =
      .ok (siteSecret siteChain) := rfl
  obtain ⟨hserved, hissued⟩ := issued_eq_served_iff_not_hidden hk hs rfl rfl
    parseChain_siteChain (AccountCalls.lawful_pair.read_pem false)
  refine ⟨hserved .empty (fun _ h => nomatch h) (by decide), hissued.2 ?_⟩
  rintro ⟨first, hfirst, htag, -⟩
  have htags : (Pem.parse siteChain).map Pem.Block.tag = .ok X509.certificateTag := by
    decide +kernel
  rw [hfirst] at htags
  exact htag (Except.ok.inj htags)

/-- Behind the parameters the certificate is served, and an enquiry takes the parameters for it. -/
theorem issued_ne_served_of_parametersAhead :
    RsaKey.ofPem (AccountCalls.pair.pem false) = .ok ⟨187, 3, 27⟩ ∧
    (∃ m, (CertStore.certificate (withSite parametersAhead) .empty ⟨"ingress", "site"⟩).2 = .ok m ∧
      m.certificate = some siteInfo) ∧
    AccountCalls.pair.keys.issued (withSite parametersAhead) "site" =
      .error (.malformed "error parsing crt of secret site: <x509>") := by
  have hinfo : X509.parseChain parametersAhead = .ok siteInfo := by decide +kernel
  refine ⟨AccountCalls.lawful_pair.read_pem false, ?_, by decide +kernel⟩
  exact CertStore.certificate_of_parseChain (by decide) rfl (fun _ h => nomatch h) (by decide)
    rfl rfl hinfo

end AcmeKeys

end IngressCache
