import IngressCache.Proofs.Acme.ServedCertificate
import IngressCache.Proofs.Material.SharedFile

/-!
# The hash of authorities

Authorities and revocations are handed out under one hash, and that is the hash of all material of
the secret. A secret with certificate and key has a bundle besides, which counts as well: two
contents with the same authorities and revocations get the same hash exactly if they have the same
bundle, and the hash is that of authorities and revocations alone exactly if there is none.
-/

namespace IngressCache

/-- No two of the given bytes have the same digest. -/
def Sha256.Distinguishes (bs : List Bytes) : Prop :=
  ∀ b ∈ bs, ∀ b' ∈ bs, hexDigest b = hexDigest b' → b = b'

theorem Sha256.Distinguishes.hexDigest_eq_iff {bs : List Bytes} (h : Distinguishes bs)
    {b b' : Bytes} (hb : b ∈ bs) (hb' : b' ∈ bs) : hexDigest b = hexDigest b' ↔ b = b' :=
  ⟨h b hb b' hb', congrArg hexDigest⟩

theorem bundleOf_ne_nil (certificate key : Bytes) : bundleOf certificate key ≠ [] := by
  unfold bundleOf
  split
  · rename_i hlast
    rintro hnil
    rw [(List.append_eq_nil_iff.1 hnil).1] at hlast
    cases hlast
  · simp

namespace Secret

variable {s s' : Secret} {k : Key} {r : Rendering}

/-! ### The bytes of a secret -/

/-- The bundle, of a secret with both certificate and key. -/
def bundle? (s : Secret) : Option Bytes :=
  (s.get? DataKey.certificate).bind fun certificate =>
    (s.get? DataKey.privateKey).map (bundleOf certificate)

/-- The authorities and the revocations that count beside them. -/
def authorityBytes (s : Secret) : Bytes :=
  (s.get? DataKey.authorities).elim [] (· ++ (s.get? DataKey.revocations).getD [])

def materialBytes (s : Secret) : Bytes :=
  s.bundle?.getD [] ++ s.authorityBytes

theorem bundle?_ne_nil (s : Secret) : s.bundle? ≠ some [] := by
  intro h
  obtain ⟨certificate, -, hkey⟩ := Option.bind_eq_some_iff.1 h
  obtain ⟨key, -, hbundle⟩ := Option.map_eq_some_iff.1 hkey
  exact bundleOf_ne_nil certificate key hbundle

theorem bundle?_getD_eq_iff {s s' : Secret} :
    s.bundle?.getD [] = s'.bundle?.getD [] ↔ s.bundle? = s'.bundle? := by
  have hs := s.bundle?_ne_nil
  have hs' := s'.bundle?_ne_nil
  generalize s.bundle? = bundle at hs ⊢
  generalize s'.bundle? = bundle' at hs' ⊢
  cases bundle with
  | none => cases bundle' <;> simp_all [eq_comm]
  | some b => cases bundle' <;> simp_all

/-- Beside the same authorities it is the bundle that tells the bytes apart. -/
theorem materialBytes_eq_iff (h : s.authorityBytes = s'.authorityBytes) :
    s.materialBytes = s'.materialBytes ↔ s.bundle? = s'.bundle? := by
  unfold materialBytes
  rw [h, List.append_left_inj, bundle?_getD_eq_iff]

theorem materialBytes_eq_authorityBytes_iff (s : Secret) :
    s.materialBytes = s.authorityBytes ↔ s.bundle? = none := by
  have hs := s.bundle?_ne_nil
  unfold materialBytes
  cases hb : s.bundle? <;> simp_all

theorem content_of_render (h : s.render k = .ok r) :
    r.bundle.map (fun b => b.1.content) = s.bundle? := by
  unfold bundle?
  rcases s.bundle_of_render h with
    ⟨certificate, key, info, hcertificate, hkey, hb⟩ | ⟨hb, hnone | hnone⟩
  · rw [hb, hcertificate, hkey]
    rfl
  · rw [hb, hnone]
    rfl
  · rw [hb, hnone]
    cases s.get? DataKey.certificate <;> rfl

theorem contents_of_render (h : s.render k = .ok r) : r.contents = s.materialBytes := by
  obtain ⟨-, ha, hl⟩ := render_eq_ok h
  have hb := content_of_render h
  unfold materialBytes authorityBytes
  rw [← hb]
  unfold Rendering.contents Rendering.parts
  rw [hl, ha]
  cases r.bundle <;> cases s.get? DataKey.authorities <;> cases s.get? DataKey.revocations <;> simp

/-! ### What is handed out -/

/-- The files of a secret with authorities, under a hash. -/
def authorityFiles (s : Secret) (k : Key) (hash : String) : FileHandle × Option FileHandle :=
  (⟨k.authoritiesFile, hash⟩,
    (s.get? DataKey.revocations).map fun _ => ⟨k.revocationsFile, hash⟩)

theorem authorityHandles_of_render (h : s.render k = .ok r) :
    Resolver.authorityHandles k r.material = match s.get? DataKey.authorities with
      | some _ => .ok (s.authorityFiles k (Sha256.hexDigest s.materialBytes))
      | none => .error (Resolver.noKey k DataKey.authorities) := by
  obtain ⟨-, ha, hl⟩ := render_eq_ok h
  unfold Resolver.authorityHandles Rendering.material authorityFiles
  rw [contents_of_render h]
  simp only [hl, ha]
  cases s.get? DataKey.authorities <;> cases s.get? DataKey.revocations <;> rfl

end Secret

namespace Resolver

variable {p : Policy} {q : Query} {k : Key} {l l' : Lister Secret} {st st' : CertStore}
  {s s' : Secret} {r r' : Rendering}

/-- The store knows of a secret what the lister has. Where the namespace has a slash, no written key
leads to the secret and the store knows nothing yet. -/
theorem certificate_of_resolve (hk : p.resolve q.ns q.reference = .ok k)
    (hst : st.CurrentAt l k.text) (hfiles : ∀ f ∈ k.files, st.directory.Accepts f) :
    (CertStore.certificate l st k).2 = (CertStore.rendering l k).map Rendering.material := by
  obtain ⟨hname, hne⟩ := Policy.plain_of_resolve hk
  by_cases hns : '/' ∈ k.ns.toList
  · refine CertStore.certificate_of_unknown l ?_ hfiles
    by_contra hknown
    obtain ⟨m, hm⟩ := Option.ne_none_iff_exists'.1 hknown
    obtain ⟨r, hr, -⟩ := hst m hm
    obtain ⟨f, hf⟩ := Key.parse_text_of_slash hns
    unfold CertStore.renderingOf Key.require at hr
    rw [hf] at hr
    cases hr
  · exact CertStore.certificate_of_currentAt ⟨hns, hname, hne⟩ hst hfiles

theorem ca_of_currentAt (hk : p.resolve q.ns q.reference = .ok k) (hs : l.find? k = some s)
    (hr : s.render k = .ok r) (hst : st.CurrentAt l k.text)
    (hfiles : ∀ f ∈ k.files, st.directory.Accepts f) :
    (ca p l (.files st) q).result = match s.get? DataKey.authorities with
      | some _ => .ok (s.authorityFiles k (Sha256.hexDigest s.materialBytes))
      | none => .error (noKey k DataKey.authorities) := by
  have hm : (CertStore.certificate l st k).2 = .ok r.material := by
    rw [certificate_of_resolve hk hst hfiles, CertStore.rendering_eq_ok_iff.2 ⟨s, hs, hr⟩]
    rfl
  unfold ca
  rw [Resolution.result_run hk]
  show (CertStore.certificate l st k).2.bind (authorityHandles k) = _
  rw [hm]
  exact Secret.authorityHandles_of_render hr

theorem ca_of_authorities (hk : p.resolve q.ns q.reference = .ok k) (hs : l.find? k = some s)
    (hr : s.render k = .ok r) (hst : st.CurrentAt l k.text)
    (hfiles : ∀ f ∈ k.files, st.directory.Accepts f) {authorities : Bytes}
    (hca : s.get? DataKey.authorities = some authorities) :
    (ca p l (.files st) q).result =
      .ok (s.authorityFiles k (Sha256.hexDigest s.materialBytes)) := by
  rw [ca_of_currentAt hk hs hr hst hfiles, hca]

/-- Two contents of a secret have the same authorities and revocations, and both can be rendered.
Without authorities a lookup of them fails in the same way. With authorities the same files are
handed out, under hashes that agree exactly if the bundles do; and each is the hash of authorities
and revocations exactly if there is no bundle. -/
theorem ca_hash_eq_iff_same_bundle (hk : p.resolve q.ns q.reference = .ok k)
    (hs : l.find? k = some s) (hs' : l'.find? k = some s')
    (hr : s.render k = .ok r) (hr' : s'.render k = .ok r')
    (hst : st.CurrentAt l k.text) (hst' : st'.CurrentAt l' k.text)
    (hfiles : ∀ f ∈ k.files, st.directory.Accepts f)
    (hfiles' : ∀ f ∈ k.files, st'.directory.Accepts f)
    (hca : s.get? DataKey.authorities = s'.get? DataKey.authorities)
    (hcrl : s.get? DataKey.revocations = s'.get? DataKey.revocations)
    (hsha : Sha256.Distinguishes [s.materialBytes, s'.materialBytes, s.authorityBytes]) :
    let answer := (ca p l (.files st) q).result
    let answer' := (ca p l' (.files st') q).result
    (s.get? DataKey.authorities = none →
      answer = .error (noKey k DataKey.authorities) ∧
        answer' = .error (noKey k DataKey.authorities)) ∧
    ∀ authorities, s.get? DataKey.authorities = some authorities →
      let alone := Sha256.hexDigest (authorities ++ (s.get? DataKey.revocations).getD [])
      ∃ hash hash', answer = .ok (s.authorityFiles k hash) ∧
        answer' = .ok (s.authorityFiles k hash') ∧
        (hash = hash' ↔ s.bundle? = s'.bundle?) ∧
        (hash = alone ↔ s.bundle? = none) ∧ (hash' = alone ↔ s'.bundle? = none) := by
  intro answer answer'
  have hanswer : answer = _ := ca_of_currentAt hk hs hr hst hfiles
  have hanswer' : answer' = _ := ca_of_currentAt hk hs' hr' hst' hfiles'
  have hbytes : s.authorityBytes = s'.authorityBytes := by
    unfold Secret.authorityBytes
    rw [hca, hcrl]
  rw [hanswer, hanswer', ← hca]
  refine ⟨fun hnone => ?_, fun authorities hsome => ?_⟩
  · rw [hnone]
    exact ⟨rfl, rfl⟩
  · intro alone
    have halone : alone = Sha256.hexDigest s.authorityBytes := by
      unfold Secret.authorityBytes
      rw [hsome]
      rfl
    have hhandles : s'.authorityFiles k = s.authorityFiles k := by
      unfold Secret.authorityFiles
      rw [hcrl]
    rw [hsome, hhandles, halone]
    refine ⟨_, _, rfl, rfl, ?_, ?_, ?_⟩
    · rw [hsha.hexDigest_eq_iff (by simp) (by simp), Secret.materialBytes_eq_iff hbytes]
    · rw [hsha.hexDigest_eq_iff (by simp) (by simp), Secret.materialBytes_eq_authorityBytes_iff]
    · rw [hsha.hexDigest_eq_iff (by simp) (by simp), hbytes,
        Secret.materialBytes_eq_authorityBytes_iff]

/-! ### Authorities beside a certificate -/

def siteKey : Key := ⟨"default", "site"⟩

def siteQuery : Query := ⟨"default", "site", .global⟩

def authorityData : Dict Bytes :=
  Dict.empty.insert DataKey.authorities (Bytes.ofString "CA")

/-- The certificate has come without its key. -/
def keylessData : Dict Bytes :=
  authorityData.insert DataKey.certificate AcmeKeys.siteChain

def bundledData : Dict Bytes :=
  keylessData.insert DataKey.privateKey (AccountCalls.pair.pem false)

def secretOf (data : Dict Bytes) : Secret :=
  ⟨.ofKey siteKey, some data, none⟩

def listerOf (data : Dict Bytes) : Lister Secret :=
  Lister.empty.step (.apply (secretOf data))

/-- What a new store hands out of the authorities. -/
def answerOf (data : Dict Bytes) : Except Failure (FileHandle × Option FileHandle) :=
  (ca ⟨true⟩ (listerOf data) (.files .empty) siteQuery).result

theorem resolve_siteQuery :
    (Policy.mk true).resolve siteQuery.ns siteQuery.reference = .ok siteKey := rfl

theorem find?_listerOf (data : Dict Bytes) : (listerOf data).find? siteKey = some (secretOf data) :=
  rfl

theorem currentAt_listerOf (data : Dict Bytes) :
    CertStore.empty.CurrentAt (listerOf data) siteKey.text :=
  fun _ h => nomatch h

theorem accepts_siteKey : ∀ f ∈ siteKey.files, CertStore.empty.directory.Accepts f := by
  decide

theorem answerOf_eq (data : Dict Bytes) {r : Rendering} {authorities : Bytes}
    (hca : (secretOf data).get? DataKey.authorities = some authorities)
    (hr : (secretOf data).render siteKey = .ok r) :
    answerOf data = .ok ((secretOf data).authorityFiles siteKey
      (Sha256.hexDigest (secretOf data).materialBytes)) :=
  ca_of_authorities resolve_siteQuery (find?_listerOf data) hr (currentAt_listerOf data)
    accepts_siteKey hca

theorem ca_hash_eq_of_keyless :
    answerOf keylessData = answerOf authorityData ∧
      answerOf authorityData =
        .ok ((secretOf authorityData).authorityFiles siteKey
          (Sha256.hexDigest (Bytes.ofString "CA"))) := by
  have hsha : Sha256.Distinguishes [(secretOf authorityData).materialBytes,
      (secretOf keylessData).materialBytes, (secretOf authorityData).authorityBytes] := by
    have hbytes : ∀ b ∈ [(secretOf authorityData).materialBytes,
        (secretOf keylessData).materialBytes, (secretOf authorityData).authorityBytes],
        b = Bytes.ofString "CA" := by
      decide +kernel
    intro b hb b' hb' _
    rw [hbytes b hb, hbytes b' hb']
  obtain ⟨-, hsome⟩ := ca_hash_eq_iff_same_bundle resolve_siteQuery
    (find?_listerOf authorityData) (find?_listerOf keylessData) rfl rfl
    (currentAt_listerOf _) (currentAt_listerOf _) accepts_siteKey accepts_siteKey rfl rfl hsha
  obtain ⟨hash, hash', hanswer, hanswer', hsame, hown, -⟩ := hsome (Bytes.ofString "CA") rfl
  obtain rfl := hsame.2 (by decide)
  obtain rfl := hown.2 (by decide)
  refine ⟨hanswer'.trans hanswer.symm, hanswer.trans ?_⟩
  rw [show (secretOf authorityData).get? DataKey.revocations = none from by decide]
  exact congrArg (fun b => Except.ok (Secret.authorityFiles _ _ (Sha256.hexDigest b)))
    (List.append_nil _)

/-- Certificate and key come to the secret, and the authorities in it stay. -/
theorem ca_hash_ne_of_bundled :
    (∀ name ∈ [DataKey.authorities, DataKey.revocations],
      (secretOf bundledData).get? name = (secretOf authorityData).get? name) ∧
    (∃ r r', (secretOf authorityData).render siteKey = .ok r ∧
      (secretOf bundledData).render siteKey = .ok r') ∧
    (answerOf authorityData).map (·.1.hash) = .ok (Sha256.hexDigest (Bytes.ofString "CA")) ∧
    (answerOf bundledData).map (·.1.hash) ≠ (answerOf authorityData).map (·.1.hash) := by
  obtain ⟨r, hr, -⟩ := (secretOf bundledData).render_of_parseChain siteKey rfl rfl
    AcmeKeys.parseChain_siteChain
  have hplain : (answerOf authorityData).map (·.1.hash) =
      .ok (Sha256.hexDigest (Bytes.ofString "CA")) := by
    decide +kernel
  have hbundled := answerOf_eq bundledData rfl hr
  have hhash : Sha256.hexDigest (secretOf bundledData).materialBytes ≠
      Sha256.hexDigest (Bytes.ofString "CA") := by
    decide +kernel
  refine ⟨by decide +kernel, ⟨_, r, rfl, hr⟩, hplain, ?_⟩
  rw [hplain, hbundled]
  exact fun h => hhash (Except.ok.inj h)

end Resolver

end IngressCache
