import IngressCache.Proofs.Material.FileContents
import IngressCache.Proofs.Material.FileNames
import IngressCache.Proofs.Material.Residue
import IngressCache.Proofs.Reference.Enquiries

/-!
# The file that bundle and parameters share

What the store has of a secret after a sequence of enquiries. Files of different secrets never
meet, and neither do the files of one secret, except that the bundle and the parameters for key
exchange have one name: that file has what was written last.
-/

namespace IngressCache

/-! ### What a rendering consists of -/

theorem Secret.render_eq_ok {s : Secret} {k : Key} {r : Rendering} (h : s.render k = .ok r) :
    s.renderBundle k = .ok r.bundle ∧
      r.authorities = (s.get? DataKey.authorities).map (⟨k.authoritiesFile, ·⟩) ∧
      r.revocations = r.authorities.bind fun _ =>
        (s.get? DataKey.revocations).map (⟨k.revocationsFile, ·⟩) := by
  unfold render at h
  cases hb : s.renderBundle k with
  | error f =>
    rw [hb] at h
    cases h
  | ok b =>
    rw [hb] at h
    obtain rfl := Except.ok.inj h
    exact ⟨rfl, rfl, rfl⟩

theorem Secret.bundle_of_render {s : Secret} {k : Key} {r : Rendering} (h : s.render k = .ok r) :
    (∃ certificate key info, s.get? DataKey.certificate = some certificate ∧
        s.get? DataKey.privateKey = some key ∧
        r.bundle = some (⟨k.bundleFile, bundleOf certificate key⟩, info)) ∨
      r.bundle = none ∧
        (s.get? DataKey.certificate = none ∨ s.get? DataKey.privateKey = none) := by
  obtain ⟨hb, -, -⟩ := render_eq_ok h
  unfold renderBundle at hb
  split at hb
  · rename_i certificate key hcertificate hkey
    split at hb
    · rename_i info _
      exact .inl ⟨certificate, key, info, hcertificate, hkey, (Except.ok.inj hb).symm⟩
    · cases hb
  · rename_i hnot
    refine .inr ⟨(Except.ok.inj hb).symm, ?_⟩
    cases hcertificate : s.get? DataKey.certificate with
    | none => exact .inl rfl
    | some certificate =>
      cases hkey : s.get? DataKey.privateKey with
      | none => exact .inr rfl
      | some key => exact absurd hkey (hnot certificate key hcertificate)

theorem Secret.bundle_of_has {s : Secret} {k : Key} {r : Rendering} (h : s.render k = .ok r)
    {certificate key : Bytes} (hcertificate : s.get? DataKey.certificate = some certificate)
    (hkey : s.get? DataKey.privateKey = some key) :
    ∃ info, r.bundle = some (⟨k.bundleFile, bundleOf certificate key⟩, info) := by
  rcases s.bundle_of_render h with
    ⟨certificate', key', info, hcertificate', hkey', hb⟩ | ⟨-, hnone | hnone⟩
  · obtain rfl := Option.some.inj (hcertificate.symm.trans hcertificate')
    obtain rfl := Option.some.inj (hkey.symm.trans hkey')
    exact ⟨info, hb⟩
  · cases hcertificate.symm.trans hnone
  · cases hkey.symm.trans hnone

theorem Secret.authorities_of_render {s : Secret} {k : Key} {r : Rendering}
    (h : s.render k = .ok r) :
    (∀ a ∈ r.authorities, s.get? DataKey.authorities = some a.content) ∧
      ∀ l ∈ r.revocations, s.get? DataKey.revocations = some l.content := by
  obtain ⟨-, ha, hl⟩ := render_eq_ok h
  refine ⟨fun a hmem => ?_, fun l hmem => ?_⟩
  · rw [ha] at hmem
    obtain ⟨c, hc, rfl⟩ := Option.map_eq_some_iff.1 hmem
    exact hc
  · rw [hl] at hmem
    obtain ⟨-, -, hmem⟩ := Option.bind_eq_some_iff.1 hmem
    obtain ⟨c, hc, rfl⟩ := Option.map_eq_some_iff.1 hmem
    exact hc

theorem Secret.bundle_content {s : Secret} {k : Key} {r : Rendering} (h : s.render k = .ok r)
    {b : Part × CertificateInfo} (hb : r.bundle = some b) :
    b.1.file = k.bundleFile ∧ ∃ certificate key, s.get? DataKey.certificate = some certificate ∧
      s.get? DataKey.privateKey = some key ∧ b.1.content = bundleOf certificate key := by
  rcases s.bundle_of_render h with
    ⟨certificate, key, info, hcertificate, hkey, hbundle⟩ | ⟨hnone, -⟩
  · obtain rfl := Option.some.inj (hb.symm.trans hbundle)
    exact ⟨rfl, certificate, key, hcertificate, hkey, rfl⟩
  · cases hb.symm.trans hnone

theorem Secret.bundleOf_eq {s : Secret} (h : ¬s.HasBoth) {certificate key parameters : Bytes}
    (hcertificate : s.get? DataKey.certificate = some certificate)
    (hkey : s.get? DataKey.privateKey = some key)
    (hparameters : s.get? DataKey.dhParameters = some parameters) :
    bundleOf certificate key = parameters := by
  by_contra hne
  exact h ⟨certificate, key, parameters, hcertificate, hkey, hparameters, hne⟩

theorem Resolver.get?_of_secretContent {secrets : Lister Secret} {k : Key} {name : String}
    {s : Secret} {c : Bytes} (hs : secrets.find? k = some s)
    (h : secretContent secrets k name = .ok c) : s.get? name = some c := by
  unfold secretContent at h
  rw [hs] at h
  simp only at h
  split at h
  · rename_i b hb
    rw [hb, Except.ok.inj h]
  · cases h

namespace CertStore
open Enquiry

/-! ### A secret's part of the store -/

/-- What the store has of a secret after the enquiries. Authorities and revocations have files of
their own. Bundle and parameters share one, and the last that was written is there. -/
structure Standing (secrets : Lister Secret) (p : Policy) (k : Key) (es : List Enquiry)
    (st : CertStore) : Prop where
  unknown : Unrendered p k es → st.cached.get? k.text = none
  known : ¬Unrendered p k es → ∃ r, rendering secrets k = .ok r ∧
    st.cached.get? k.text = some r.material ∧
    Written st.directory (r.authorities.toList ++ r.revocations.toList)
  bundle : RenderedLast p k es → ∀ r, rendering secrets k = .ok r → ∀ b ∈ r.bundle,
    st.directory.content? k.bundleFile = some b.1.content
  parameters : AsksParameters p k es →
    (RenderedLast p k es → ∀ r, rendering secrets k = .ok r → r.bundle = none) →
    ∃ c, Resolver.secretContent secrets k DataKey.dhParameters = .ok c ∧
      st.directory.content? k.bundleFile = some c

theorem standing_empty (secrets : Lister Secret) (p : Policy) (k : Key) (d : Directory) :
    Standing secrets p k [] ⟨d, .empty⟩ where
  unknown _ := rfl
  known h := absurd (fun _ he => absurd he List.not_mem_nil) h
  bundle h := absurd (fun _ he => absurd he List.not_mem_nil) h.not_unrendered
  parameters h := by
    obtain ⟨e, he, -⟩ := h
    cases he

namespace Standing

variable {secrets : Lister Secret} {p : Policy} {k : Key} {es : List Enquiry} {st st' : CertStore}
  {e : Enquiry}

/-- An enquiry about another secret leaves this one's part as it is. -/
theorem congr (h : Standing secrets p k es st) (he : ¬e.Names p k)
    (hcached : st'.cached.get? k.text = st.cached.get? k.text)
    (hfiles : ∀ f ∈ k.files, st'.directory.get? f = st.directory.get? f) :
    Standing secrets p k (es ++ [e]) st' := by
  have hunrendered : Unrendered p k (es ++ [e]) ↔ Unrendered p k es := by
    simp [unrendered_concat, he]
  have hlast : RenderedLast p k (es ++ [e]) ↔ RenderedLast p k es := by
    simp [renderedLast_concat, he]
  have hasks : AsksParameters p k (es ++ [e]) ↔ AsksParameters p k es := by
    simp [asksParameters_concat, he]
  have hbundle : st'.directory.content? k.bundleFile = st.directory.content? k.bundleFile :=
    Directory.content?_congr (hfiles _ List.mem_cons_self)
  refine ⟨?_, ?_, ?_, ?_⟩
  · rw [hunrendered, hcached]
    exact h.unknown
  · rw [hunrendered, hcached]
    intro hknown
    obtain ⟨r, hr, hm, hw⟩ := h.known hknown
    refine ⟨r, hr, hm, hw.congr fun part hpart => hfiles _ ((rendering_of hr).mem_files ?_)⟩
    unfold Rendering.parts
    rw [List.append_assoc]
    exact List.mem_append_right _ hpart
  · rw [hlast, hbundle]
    exact h.bundle
  · rw [hasks, hlast, hbundle]
    exact h.parameters

/-- A secret that is known is not rendered again. -/
theorem again (h : Standing secrets p k es st) (he : e.renders = true) {m : Material}
    (hm : st.cached.get? k.text = some m) : Standing secrets p k (es ++ [e]) st := by
  have hknown : ¬Unrendered p k es := fun hn => by cases (h.unknown hn).symm.trans hm
  have hunrendered : ¬Unrendered p k (es ++ [e]) := by simp [unrendered_concat, hknown]
  have hlast : RenderedLast p k (es ++ [e]) ↔ RenderedLast p k es := by
    simp [renderedLast_concat, hknown, he]
  have hasks : AsksParameters p k (es ++ [e]) ↔ AsksParameters p k es := by
    simp [asksParameters_concat, he]
  refine ⟨fun hn => absurd hn hunrendered, fun _ => h.known hknown, ?_, ?_⟩
  · rw [hlast]
    exact h.bundle
  · rw [hasks, hlast]
    exact h.parameters

theorem rendered (h : Standing secrets p k es st) (hk : e.Names p k) (he : e.renders = true)
    (hm : st.cached.get? k.text = none) {r : Rendering} (hr : rendering secrets k = .ok r)
    (hw : (writeParts st.directory r.parts).2 = none) :
    Standing secrets p k (es ++ [e])
      ⟨(writeParts st.directory r.parts).1, st.cached.insert k.text r.material⟩ := by
  have hof := rendering_of hr
  have hes : Unrendered p k es := by
    by_contra hn
    obtain ⟨r', -, hm', -⟩ := h.known hn
    cases hm.symm.trans hm'
  have hunrendered : ¬Unrendered p k (es ++ [e]) := by simp [unrendered_concat, hk, he]
  have hlast : RenderedLast p k (es ++ [e]) := by simp [renderedLast_concat, hes, hk, he]
  have hasks : AsksParameters p k (es ++ [e]) ↔ AsksParameters p k es := by
    simp [asksParameters_concat, he]
  have hwritten : Written (writeParts st.directory r.parts).1 r.parts := fun part hpart => by
    simp only [Directory.content?, writeParts_get?_of_none hw hof.files_nodup hpart]
  refine ⟨fun hn => absurd hn hunrendered, fun _ => ⟨r, hr, Table.get?_insert_self _ _ _, ?_⟩,
    fun _ r' hr' b hb => ?_, fun hp hnone => ?_⟩
  · intro part hpart
    refine hwritten part ?_
    unfold Rendering.parts
    rw [List.append_assoc]
    exact List.mem_append_right _ hpart
  · obtain rfl := Except.ok.inj (hr.symm.trans hr')
    rw [← hof.bundle b hb]
    refine hwritten b.1 ?_
    simp only [Rendering.parts, List.mem_append, Option.mem_toList]
    exact .inl (.inl (Option.map_eq_some_iff.2 ⟨b, hb, rfl⟩))
  · have hnone : r.bundle = none := hnone hlast r hr
    obtain ⟨c, hc, hcontent⟩ := h.parameters (hasks.1 hp) fun hes' =>
      absurd hes hes'.not_unrendered
    refine ⟨c, hc, ?_⟩
    rw [← hcontent]
    refine Directory.content?_congr (writeParts_get?_of_not_mem _ _ fun hmem => ?_)
    rw [← Rendering.files_material] at hmem
    rcases hof.file_cases hmem with ⟨-, hb⟩ | ⟨hb, -⟩ | ⟨hb, -⟩
    · rw [Rendering.material, hnone] at hb
      cases hb
    · exact k.bundleFile_ne_authoritiesFile hb
    · exact k.bundleFile_ne_revocationsFile hb

theorem parametrized (h : Standing secrets p k es st) (hk : e.Names p k)
    (he : e.renders = false) {c : Bytes}
    (hc : Resolver.secretContent secrets k DataKey.dhParameters = .ok c) {d : Directory}
    (hw : st.directory.write k.bundleFile c = .ok d) :
    Standing secrets p k (es ++ [e]) ⟨d, st.cached⟩ := by
  obtain rfl := Directory.eq_insert_of_write hw
  have hunrendered : Unrendered p k (es ++ [e]) ↔ Unrendered p k es := by
    simp [unrendered_concat, he]
  have hlast : ¬RenderedLast p k (es ++ [e]) := by simp [renderedLast_concat, hk, he]
  refine ⟨?_, ?_, fun hn => absurd hn hlast, fun _ _ => ⟨c, hc, ?_⟩⟩
  · rw [hunrendered]
    exact h.unknown
  · rw [hunrendered]
    intro hknown
    obtain ⟨r, hr, hm, hwritten⟩ := h.known hknown
    have hof := rendering_of hr
    refine ⟨r, hr, hm, hwritten.congr fun part hpart => Table.get?_insert_ne (fun heq => ?_) _ _⟩
    rcases List.mem_append.1 hpart with ha | hl
    · rw [hof.authorities part (Option.mem_toList.1 ha)] at heq
      exact k.bundleFile_ne_authoritiesFile heq.symm
    · rw [hof.revocations part (Option.mem_toList.1 hl)] at heq
      exact k.bundleFile_ne_revocationsFile heq.symm
  · simp only [Directory.content?, Table.get?_insert_self]

end Standing

/-! ### One lookup -/

/-- A lookup that succeeds: what it does to the store, and what it hands out. -/
inductive Served (secrets : Lister Secret) (k : Key) (st : CertStore) :
    Enquiry → CertStore → Handout → Prop
  | tls (q : Query) (m : Material) (h : BundleHandle)
      (hm : (certificate secrets st k).2 = .ok m) (hh : Resolver.bundleHandle k m = .ok h) :
      Served secrets k st (.tls q) (certificate secrets st k).1 (.tls h)
  | ca (q : Query) (m : Material) (a : FileHandle) (l : Option FileHandle)
      (hm : (certificate secrets st k).2 = .ok m)
      (hh : Resolver.authorityHandles k m = .ok (a, l)) :
      Served secrets k st (.ca q) (certificate secrets st k).1 (.ca a l)
  | dh (q : Query) (c : Bytes) (h : FileHandle) (d : Directory)
      (hc : Resolver.secretContent secrets k DataKey.dhParameters = .ok c)
      (hw : st.directory.write k.bundleFile c = .ok d) (hfile : h.filename = k.bundleFile) :
      Served secrets k st (.dh q) ⟨d, st.cached⟩ (.dh h)

theorem addDhParameters_eq_ok {st : CertStore} {k : Key} {c : Bytes} {h : FileHandle}
    (hok : (st.addDhParameters k.fileStem c).2 = .ok h) :
    ∃ d, st.directory.write k.bundleFile c = .ok d ∧
      (st.addDhParameters k.fileStem c).1 = ⟨d, st.cached⟩ ∧ h.filename = k.bundleFile := by
  unfold addDhParameters at hok ⊢
  cases hf : dhFault? k.fileStem c with
  | some f =>
    rw [hf] at hok
    cases hok
  | none =>
    cases hw : st.directory.write (k.fileStem ++ ".pem") c with
    | error f =>
      simp only [hf, hw] at hok
      cases hok
    | ok d =>
      simp only [hf, hw] at hok ⊢
      obtain rfl := Except.ok.inj hok
      exact ⟨d, hw, rfl, rfl⟩

variable {secrets : Lister Secret} {p : Policy} {es : List Enquiry} {st st' : CertStore}
  {e : Enquiry} {h : Handout} {j k : Key}

theorem standing_certificate (hj : j.Simple) (he : e.Names p j) (hr : e.renders = true)
    (hst : ∀ k, k.Simple → Standing secrets p k es st) {m : Material}
    (hm : (certificate secrets st j).2 = .ok m) (hk : k.Simple) :
    Standing secrets p k (es ++ [e]) (certificate secrets st j).1 := by
  have hcase := asked secrets st j
  generalize certificate secrets st j = x at hcase hm ⊢
  cases hcase with
  | unrendered hm' f hr' => cases hm
  | unwritten hm' r hr' f hw => cases hm
  | known m' hm' =>
    by_cases hkj : k = j
    · subst hkj
      exact (hst k hk).again hr hm'
    · exact (hst k hk).congr (fun hk' => hkj (hk'.unique he)) rfl fun _ _ => rfl
  | written hm' r hr' hw =>
    by_cases hkj : k = j
    · subst hkj
      exact (hst k hk).rendered he hr hm' hr' hw
    · refine (hst k hk).congr (fun hk' => hkj (hk'.unique he)) ?_ fun f hf => ?_
      · refine Table.get?_insert_ne (fun htext => hkj ?_) _ _
        exact Key.text_injective hk.toLegible hj.toLegible htext
      · refine writeParts_get?_of_not_mem _ _ fun hmem => hkj ?_
        exact Key.eq_of_mem_files hk hj hf ((rendering_of hr').files_sublist.subset hmem)

theorem standing_served (hj : j.Simple) (he : e.Names p j)
    (hst : ∀ k, k.Simple → Standing secrets p k es st) (hs : Served secrets j st e st' h)
    (hk : k.Simple) : Standing secrets p k (es ++ [e]) st' := by
  cases hs with
  | tls q m h hm hh => exact standing_certificate hj he rfl hst hm hk
  | ca q m a l hm hh => exact standing_certificate hj he rfl hst hm hk
  | dh q c h d hc hw hfile =>
    by_cases hkj : k = j
    · subst hkj
      exact (hst k hk).parametrized he rfl hc hw
    · refine (hst k hk).congr (fun hk' => hkj (hk'.unique he)) rfl fun f hf => ?_
      obtain rfl := Directory.eq_insert_of_write hw
      refine Table.get?_insert_ne (fun hfile => hkj ?_) _ _
      exact Key.eq_of_mem_files hk hj hf (hfile ▸ List.mem_cons_self)

/-- What a handle stands for does not depend on when it was handed out. -/
inductive Stands (secrets : Lister Secret) (k : Key) : Enquiry → Handout → Prop
  | tls (q : Query) (h : BundleHandle) (r : Rendering) (b : Part × CertificateInfo)
      (hr : rendering secrets k = .ok r) (hb : r.bundle = some b) (hfile : h.filename = b.1.file) :
      Stands secrets k (.tls q) (.tls h)
  | ca (q : Query) (a : FileHandle) (l : Option FileHandle) (r : Rendering) (x : Part)
      (hr : rendering secrets k = .ok r) (hx : r.authorities = some x)
      (ha : a.filename = x.file)
      (hl : ∀ h ∈ l, ∃ y, r.revocations = some y ∧ h.filename = y.file) :
      Stands secrets k (.ca q) (.ca a l)
  | dh (q : Query) (h : FileHandle) (c : Bytes)
      (hc : Resolver.secretContent secrets k DataKey.dhParameters = .ok c)
      (hfile : h.filename = k.bundleFile) : Stands secrets k (.dh q) (.dh h)

/-- The material that a lookup gets is that of the rendering, now or when it was first asked for. -/
theorem rendering_of_certificate (hst : Standing secrets p j es st) {m : Material}
    (hm : (certificate secrets st j).2 = .ok m) :
    ∃ r, rendering secrets j = .ok r ∧ m = r.material := by
  have hcase := asked secrets st j
  generalize certificate secrets st j = x at hcase hm ⊢
  cases hcase with
  | unrendered hm' f hr' => cases hm
  | unwritten hm' r hr' f hw => cases hm
  | known m' hm' =>
    obtain rfl := Except.ok.inj hm
    obtain ⟨r, hr, hm, -⟩ := hst.known fun hn => by cases (hst.unknown hn).symm.trans hm'
    exact ⟨r, hr, Option.some.inj (hm'.symm.trans hm)⟩
  | written hm' r hr' hw => exact ⟨r, hr', (Except.ok.inj hm).symm⟩

theorem stands_of_served (hst : Standing secrets p j es st) (hs : Served secrets j st e st' h) :
    Stands secrets j e h := by
  cases hs with
  | tls q m h hm hh =>
    obtain ⟨r, hr, rfl⟩ := rendering_of_certificate hst hm
    unfold Resolver.bundleHandle at hh
    split at hh
    · rename_i file info hfile hinfo
      obtain rfl := Except.ok.inj hh
      obtain ⟨b, hb, rfl⟩ := Option.map_eq_some_iff.1 hfile
      exact .tls q _ r b hr hb rfl
    · cases hh
  | ca q m a l hm hh =>
    obtain ⟨r, hr, rfl⟩ := rendering_of_certificate hst hm
    unfold Resolver.authorityHandles at hh
    split at hh
    · rename_i file hfile
      obtain ⟨rfl, rfl⟩ := Prod.mk.inj (Except.ok.inj hh)
      obtain ⟨x, hx, rfl⟩ := Option.map_eq_some_iff.1 hfile
      refine .ca q _ _ r x hr hx rfl fun h hmem => ?_
      obtain ⟨f, hf, rfl⟩ := Option.map_eq_some_iff.1 hmem
      obtain ⟨y, hy, rfl⟩ := Option.map_eq_some_iff.1 hf
      exact ⟨y, hy, rfl⟩
    · cases hh
  | dh q c h d hc hw hfile => exact .dh q h c hc hfile

/-! ### Validity -/

variable {s : Secret}

theorem Stands.exists_find? {e : Enquiry} {h : Handout} (hs : Stands secrets k e h) :
    ∃ s, secrets.find? k = some s := by
  cases hs with
  | tls q h r b hr hb hfile =>
    obtain ⟨s, hs, -⟩ := rendering_eq_ok_iff.1 hr
    exact ⟨s, hs⟩
  | ca q a l r x hr hx ha hl =>
    obtain ⟨s, hs, -⟩ := rendering_eq_ok_iff.1 hr
    exact ⟨s, hs⟩
  | dh q h c hc hfile =>
    unfold Resolver.secretContent at hc
    split at hc
    · cases hc
    · rename_i s hs
      exact ⟨s, hs⟩

theorem Stands.content_of_tls {q : Query} {o : Handout} (hs : Stands secrets k (.tls q) o)
    {d : Directory} (hv : o.Valid s d) {certificate key : Bytes}
    (hcertificate : s.get? DataKey.certificate = some certificate)
    (hkey : s.get? DataKey.privateKey = some key) :
    d.content? k.bundleFile = some (bundleOf certificate key) := by
  cases hs with
  | tls q h r b hr hb hfile =>
    obtain ⟨certificate', key', hcertificate', hkey', hcontent⟩ := hv
    obtain rfl := Option.some.inj (hcertificate.symm.trans hcertificate')
    obtain rfl := Option.some.inj (hkey.symm.trans hkey')
    rwa [hfile, (rendering_of hr).bundle b hb] at hcontent

theorem Stands.content_of_dh {e : Enquiry} {o : Handout} (hs : Stands secrets k e o)
    (he : e.renders = false) {d : Directory} (hv : o.Valid s d) {parameters : Bytes}
    (hparameters : s.get? DataKey.dhParameters = some parameters) :
    d.content? k.bundleFile = some parameters := by
  cases hs with
  | tls q h r b hr hb hfile => cases he
  | ca q a l r x hr hx ha hl => cases he
  | dh q h c hc hfile =>
    obtain ⟨c', hc', hcontent⟩ := hv
    rw [← hfile, hcontent, ← hc', hparameters]

namespace Standing

theorem content_of_renderedLast (h : Standing secrets p k es st)
    (hs : secrets.find? k = some s) (hlast : RenderedLast p k es) {certificate key : Bytes}
    (hcertificate : s.get? DataKey.certificate = some certificate)
    (hkey : s.get? DataKey.privateKey = some key) :
    st.directory.content? k.bundleFile = some (bundleOf certificate key) := by
  obtain ⟨r, hr, -⟩ := h.known hlast.not_unrendered
  obtain ⟨s', hs', hrender⟩ := rendering_eq_ok_iff.1 hr
  obtain rfl := Option.some.inj (hs.symm.trans hs')
  obtain ⟨info, hb⟩ := Secret.bundle_of_has hrender hcertificate hkey
  exact h.bundle hlast r hr _ hb

/-- The bundle is in its file unless parameters have replaced it. -/
theorem bundle_content (h : Standing secrets p k es st) (hs : secrets.find? k = some s)
    (hknown : ¬Unrendered p k es) {r : Rendering} (hr : rendering secrets k = .ok r)
    {b : Part × CertificateInfo} (hb : r.bundle = some b)
    (hnot : AsksParameters p k es → ¬s.HasBoth) :
    st.directory.content? k.bundleFile = some b.1.content := by
  by_cases hlast : RenderedLast p k es
  · exact h.bundle hlast r hr b hb
  · have hasks := (renderedLast_or_asksParameters hknown).resolve_left hlast
    obtain ⟨c, hc, hcontent⟩ := h.parameters hasks fun h' => absurd h' hlast
    obtain ⟨s', hs', hrender⟩ := rendering_eq_ok_iff.1 hr
    obtain rfl := Option.some.inj (hs.symm.trans hs')
    obtain ⟨-, certificate, key, hcertificate, hkey, hbundle⟩ := Secret.bundle_content hrender hb
    rw [hcontent, hbundle, Secret.bundleOf_eq (hnot hasks) hcertificate hkey
      (Resolver.get?_of_secretContent hs hc)]

/-- The parameters are in their file unless the bundle has replaced them. -/
theorem parameters_content (h : Standing secrets p k es st) (hs : secrets.find? k = some s)
    (hasks : AsksParameters p k es) {c : Bytes} (hc : s.get? DataKey.dhParameters = some c)
    (hnot : RenderedLast p k es → ¬s.HasBoth) :
    st.directory.content? k.bundleFile = some c := by
  by_cases hnone : RenderedLast p k es → ∀ r, rendering secrets k = .ok r → r.bundle = none
  · obtain ⟨c', hc', hcontent⟩ := h.parameters hasks hnone
    have hsame := Resolver.get?_of_secretContent hs hc'
    rw [hcontent, ← hsame, hc]
  · push Not at hnone
    obtain ⟨hlast, r, hr, hne⟩ := hnone
    obtain ⟨b, hb⟩ := Option.ne_none_iff_exists'.1 hne
    obtain ⟨s', hs', hrender⟩ := rendering_eq_ok_iff.1 hr
    obtain rfl := Option.some.inj (hs.symm.trans hs')
    obtain ⟨-, certificate, key, hcertificate, hkey, hbundle⟩ := Secret.bundle_content hrender hb
    rw [h.bundle hlast r hr b hb, hbundle, Secret.bundleOf_eq (hnot hlast) hcertificate hkey hc]

theorem authorities_valid (h : Standing secrets p k es st) (hs : secrets.find? k = some s)
    (hknown : ¬Unrendered p k es) {q : Query} {a : FileHandle} {l : Option FileHandle}
    (hstands : Stands secrets k (.ca q) (.ca a l)) : (Handout.ca a l).Valid s st.directory := by
  obtain ⟨r, hr, -, hw⟩ := h.known hknown
  obtain ⟨s', hs', hrender⟩ := rendering_eq_ok_iff.1 hr
  obtain rfl := Option.some.inj (hs.symm.trans hs')
  obtain ⟨hauthorities, hrevocations⟩ := s.authorities_of_render hrender
  cases hstands with
  | ca q a l r' x hr' hx ha hl =>
    obtain rfl := Except.ok.inj (hr.symm.trans hr')
    refine ⟨⟨x.content, hauthorities x hx, ?_⟩, fun h hh => ?_⟩
    · rw [ha]
      exact hw x (List.mem_append_left _ (Option.mem_toList.2 hx))
    · obtain ⟨y, hy, hfile⟩ := hl h hh
      refine ⟨y.content, hrevocations y hy, ?_⟩
      rw [hfile]
      exact hw y (List.mem_append_right _ (Option.mem_toList.2 hy))

/-- Handles are valid if no secret was looked up both ways. -/
theorem valid (h : Standing secrets p k es st) (hs : secrets.find? k = some s)
    {e : Enquiry} (he : e ∈ es) (hk : e.Names p k) {o : Handout} (hstands : Stands secrets k e o)
    (hnot : ¬Contested p secrets es) : o.Valid s st.directory := by
  have hknown : e.renders = true → ¬Unrendered p k es := by
    intro hr hn
    rw [hn e he hk] at hr
    cases hr
  cases hstands with
  | tls q h' r b hr hb hfile =>
    obtain ⟨s', hs', hrender⟩ := rendering_eq_ok_iff.1 hr
    obtain rfl := Option.some.inj (hs.symm.trans hs')
    obtain ⟨hbfile, certificate, key, hcertificate, hkey, hbundle⟩ :=
      Secret.bundle_content hrender hb
    refine ⟨certificate, key, hcertificate, hkey, ?_⟩
    rw [hfile, hbfile, ← hbundle]
    refine h.bundle_content hs (hknown rfl) hr hb fun hasks hboth => hnot ?_
    exact ⟨k, s, hs, hboth, hasks, .inl ⟨q, he, hk⟩⟩
  | ca q a l r x hr hx ha hl =>
    exact h.authorities_valid hs (hknown rfl) (.ca q a l r x hr hx ha hl)
  | dh q h' c hc hfile =>
    have hc := Resolver.get?_of_secretContent hs hc
    have hasks : AsksParameters p k es := ⟨_, he, hk, rfl⟩
    refine ⟨c, hc, ?_⟩
    rw [hfile]
    refine h.parameters_content hs hasks hc fun hlast hboth => hnot ?_
    exact ⟨k, s, hs, hboth, hasks, .inr hlast⟩

end Standing

end CertStore

end IngressCache
