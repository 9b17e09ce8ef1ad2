import IngressCache.Proofs.Material.Separation

/-!
# What the files hold after a refresh

A refresh compares what is known of a secret, which says of the contents no more than a hash over
all of them, one after the other. Bytes that move from one file of a secret to its next file leave
that hash as it was, and then the files stay as they were. In every other case the files hold what
the secret's rendering says.
-/

namespace IngressCache

/-! ### Renderings of one secret -/

/-- The same files and the same bytes in all, but not the same bytes in each file. -/
structure Rendering.Redivided (r r' : Rendering) : Prop where
  files : r.material.files = r'.material.files
  certificate : r.material.certificate = r'.material.certificate
  contents : r.contents = r'.contents
  parts_ne : r.parts ≠ r'.parts

namespace Rendering

theorem Of.names_eq_of_files {r r' : Rendering} {k : Key} (h : r.Of k) (h' : r'.Of k)
    (hf : r.material.files = r'.material.files) :
    r.material.bundle = r'.material.bundle ∧ r.material.authorities = r'.material.authorities ∧
      r.material.revocations = r'.material.revocations := by
  have h1 := k.bundleFile_ne_authoritiesFile
  have h2 := k.bundleFile_ne_revocationsFile
  have h3 := k.authoritiesFile_ne_revocationsFile
  obtain ⟨hb, ha, hl⟩ := h
  obtain ⟨hb', ha', hl'⟩ := h'
  rcases r with ⟨_ | b, _ | a, _ | l⟩ <;> rcases r' with ⟨_ | b', _ | a', _ | l'⟩ <;>
    simp_all [material, Material.files]

/-- Where the hash has no collision, what is known of two renderings of one secret is the same
exactly if files, certificate and the bytes in all are. -/
theorem Of.material_eq_iff {r r' : Rendering} {k : Key} (h : r.Of k) (h' : r'.Of k)
    (hsha : Sha256.hexDigest r.contents = Sha256.hexDigest r'.contents →
      r.contents = r'.contents) :
    r.material = r'.material ↔ r.material.files = r'.material.files ∧
      r.material.certificate = r'.material.certificate ∧ r.contents = r'.contents := by
  constructor
  · intro he
    exact ⟨congrArg Material.files he, congrArg Material.certificate he,
      hsha (congrArg Material.hash he)⟩
  · rintro ⟨hfiles, hcert, hcontents⟩
    obtain ⟨hb, ha, hl⟩ := h.names_eq_of_files h' hfiles
    have hhash : r.material.hash = r'.material.hash := congrArg Sha256.hexDigest hcontents
    exact Material.ext hb hhash hcert ha hl

theorem Of.redivided_iff {r r' : Rendering} {k : Key} (h : r.Of k) (h' : r'.Of k)
    (hsha : Sha256.hexDigest r.contents = Sha256.hexDigest r'.contents →
      r.contents = r'.contents) :
    r.Redivided r' ↔ r.material = r'.material ∧ r.parts ≠ r'.parts := by
  rw [h.material_eq_iff h' hsha]
  constructor
  · rintro ⟨hfiles, hcert, hcontents, hne⟩
    exact ⟨⟨hfiles, hcert, hcontents⟩, hne⟩
  · rintro ⟨⟨hfiles, hcert, hcontents⟩, hne⟩
    exact ⟨hfiles, hcert, hcontents, hne⟩

theorem redivided_ofAuthorities (k : Key) (a c : Bytes) {b : Bytes} (hb : b ≠ []) :
    Redivided ⟨none, some ⟨k.authoritiesFile, a ++ b⟩, some ⟨k.revocationsFile, c⟩⟩
      ⟨none, some ⟨k.authoritiesFile, a⟩, some ⟨k.revocationsFile, b ++ c⟩⟩ where
  files := by rw [files_material, files_material]; rfl
  certificate := rfl
  contents := by simp [contents, parts]
  parts_ne := by simp [parts, hb]

end Rendering

namespace CertStore
open Directory

/-! ### Contents of parts -/

def Written (d : Directory) (ps : List Part) : Prop :=
  ∀ p ∈ ps, d.content? p.file = some p.content

/-- A directory has one content for each file, so it holds one list of parts with given files. -/
theorem Written.parts_eq {d : Directory} {ps qs : List Part} (hp : Written d ps)
    (hq : Written d qs) (hf : ps.map Part.file = qs.map Part.file) : ps = qs := by
  induction ps generalizing qs with
  | nil =>
    cases qs with
    | nil => rfl
    | cons q qs => cases hf
  | cons p ps ih =>
    cases qs with
    | nil => cases hf
    | cons q qs =>
      rw [List.map_cons, List.map_cons, List.cons.injEq] at hf
      have hcp := hp p List.mem_cons_self
      have hcq := hq q List.mem_cons_self
      rw [hf.1, hcq] at hcp
      have hpq : p = q := Part.ext hf.1 (Option.some.inj hcp).symm
      have hrest := ih (fun p' h => hp p' (List.mem_cons_of_mem _ h))
        (fun q' h => hq q' (List.mem_cons_of_mem _ h)) hf.2
      rw [hpq, hrest]

theorem Written.congr {d d' : Directory} {ps : List Part} (h : Written d ps)
    (he : ∀ p ∈ ps, d'.get? p.file = d.get? p.file) : Written d' ps := by
  intro p hp
  rw [content?_congr (he p hp)]
  exact h p hp

theorem written_writeParts {d : Directory} {r : Rendering} {k : Key} (h : r.Of k)
    (hd : ∀ f ∈ k.files, d.Accepts f) :
    (writeParts d r.parts).2 = none ∧ Written (writeParts d r.parts).1 r.parts :=
  writeParts_of_accepts (fun _ hp => hd _ (h.mem_files hp)) h.files_nodup

theorem Written.removeFiles {d : Directory} {r r' : Rendering} {k : Key} (h : Written d r'.parts)
    (hr : r.Of k) (hr' : r'.Of k) :
    Written (removeFiles d (dropped r.material r'.material)).1 r'.parts := by
  refine h.congr fun _ hp => removeFiles_get?_of_not_mem d _ fun hmem => ?_
  refine hr.not_mem_of_dropped hr' hmem ?_
  rw [Rendering.files_material]
  exact List.mem_map_of_mem hp

/-! ### Stores that hold a rendering -/

structure Holds (st : CertStore) (k : Key) (r : Rendering) : Prop where
  cached : st.cached.get? k.text = some r.material
  written : Written st.directory r.parts

theorem holds_certificate {secrets : Lister Secret} {st : CertStore} {k : Key} {r : Rendering}
    (hm : st.cached.get? k.text = none) (hd : ∀ f ∈ k.files, st.directory.Accepts f)
    (hr : rendering secrets k = .ok r) : (certificate secrets st k).1.Holds k r := by
  have hw := written_writeParts (rendering_of hr) hd
  have hcase := asked secrets st k
  generalize certificate secrets st k = x at hcase ⊢
  cases hcase with
  | known m hm' => cases hm.symm.trans hm'
  | unrendered hm f hr' => cases hr.symm.trans hr'
  | unwritten hm r' hr' f hw' =>
    obtain rfl := Except.ok.inj (hr.symm.trans hr')
    cases hw.1.symm.trans hw'
  | written hm r' hr' hw' =>
    obtain rfl := Except.ok.inj (hr.symm.trans hr')
    exact ⟨Table.get?_insert_self _ _ _, hw.2⟩

/-- After a refresh the store knows the new rendering; the files hold it unless all that was known
stays and the parts do not. -/
theorem Holds.refresh {secrets : Lister Secret} {st : CertStore} {k : Key} {r r' : Rendering}
    (h : st.Holds k r) (hk : k.Legible) (hr : r.Of k)
    (hd : ∀ f ∈ k.files, st.directory.Accepts f) (hr' : rendering secrets k = .ok r') :
    (st.refresh secrets k.text).1.cached.get? k.text = some r'.material ∧
      (Written (st.refresh secrets k.text).1.directory r'.parts ↔
        ¬(r.material = r'.material ∧ r.parts ≠ r'.parts)) := by
  have hof := rendering_of hr'
  have hnew : renderingOf secrets k.text = .ok r' := (renderingOf_text secrets hk).trans hr'
  have hw := written_writeParts hof hd
  have hcase := refreshed secrets st k.text
  generalize (st.refresh secrets k.text).1 = st' at hcase ⊢
  cases hcase with
  | unknown hm => cases hm.symm.trans h.cached
  | gone m hm f hf => cases hnew.symm.trans hf
  | unwritten m hm q hq hne f hf =>
    obtain rfl := Except.ok.inj (hnew.symm.trans hq)
    cases hw.1.symm.trans hf
  | same m hm q hq he =>
    obtain rfl := Except.ok.inj (hnew.symm.trans hq)
    obtain rfl := Option.some.inj (h.cached.symm.trans hm)
    refine ⟨he ▸ h.cached, fun hnow hdiv => hdiv.2 ?_, fun hdiv => ?_⟩
    · refine h.written.parts_eq hnow ?_
      rw [← Rendering.files_material, ← Rendering.files_material, he]
    · have hparts : r.parts = r'.parts := by
        by_contra hne
        exact hdiv ⟨he.symm, hne⟩
      exact hparts ▸ h.written
  | written m hm q hq hne hf =>
    obtain rfl := Except.ok.inj (hnew.symm.trans hq)
    obtain rfl := Option.some.inj (h.cached.symm.trans hm)
    refine ⟨Table.get?_insert_self _ _ _, fun _ hdiv => hne hdiv.1.symm, fun _ => ?_⟩
    exact hw.2.removeFiles hr hof

theorem Holds.keeps {st st' : CertStore} {k : Key} {r : Rendering} (h : st.Holds k r)
    (hr : r.Of k) (hk : st.Keeps st' k) : st'.Holds k r :=
  ⟨hk.cached.trans h.cached, h.written.congr fun _ hp => hk.files _ (hr.mem_files hp)⟩

theorem isListed_text {secrets : Lister Secret} {k : Key} (hk : k.Legible) {s : Secret}
    (hs : secrets.find? k = some s) : isListed secrets k.text = true := by
  unfold isListed
  rw [Key.parse_text hk]
  simp only [hs, Option.isSome_some]

/-- A resync does what a refresh does, whenever it comes to the secret. -/
theorem Holds.resync {secrets : Lister Secret} {st : CertStore} {k : Key} {r r' : Rendering}
    (h : st.Holds k r) (hk : k.Legible) (hr : r.Of k)
    (hd : ∀ f ∈ k.files, st.directory.Accepts f) (hr' : rendering secrets k = .ok r')
    (hapart : st.Apart k) :
    (st.resync secrets).1.cached.get? k.text = some r'.material ∧
      (Written (st.resync secrets).1.directory r'.parts ↔
        ¬(r.material = r'.material ∧ r.parts ≠ r'.parts)) := by
  have hmem : k.text ∈ st.cached.keys := Table.mem_keys.2 ⟨_, h.cached⟩
  obtain ⟨before, after, hkeys⟩ := List.append_of_mem hmem
  have hnodup : (before ++ k.text :: after).Nodup := hkeys ▸ st.cached.nodup
  have hbefore : k.text ∉ before := fun hb =>
    (List.nodup_append.1 hnodup).2.2 _ hb _ List.mem_cons_self rfl
  have hafter : k.text ∉ after := (List.nodup_cons.1 (List.nodup_append.1 hnodup).2.1).1
  obtain ⟨s, hs, -⟩ := rendering_eq_ok_iff.1 hr'
  -- Before the visit nothing changes, at the visit what a refresh changes, afterwards nothing.
  have hkept := hapart.keeps_reconcileAll secrets hbefore
  have hd' : ∀ f ∈ k.files, (st.reconcileAll secrets before).1.directory.Accepts f :=
    fun f hf => reconcileAll_accepts secrets (hd f hf) before
  have hrefresh := (h.keeps hr hkept).refresh hk hr hd' hr'
  have hvisit : (st.reconcileAll secrets before).1.reconcile secrets k.text =
      (st.reconcileAll secrets before).1.refresh secrets k.text := by
    rw [reconcile, isListed_text hk hs, if_pos rfl]
  have hapart' : ((st.reconcileAll secrets before).1.refresh secrets k.text).1.Apart k :=
    hkept.apart.congr fun t ht => refresh_cached_of_ne secrets _ ht
  have hrest := hapart'.keeps_reconcileAll secrets hafter
  rw [CertStore.resync, hkeys, reconcileAll_append, reconcileAll_cons, hvisit]
  refine ⟨hrest.cached.trans hrefresh.1, ?_⟩
  rw [← hrefresh.2]
  have hfiles : ∀ p ∈ r'.parts, _ = _ := fun p hp =>
    hrest.files _ ((rendering_of hr').mem_files hp)
  exact ⟨fun hw => hw.congr fun p hp => (hfiles p hp).symm, fun hw => hw.congr hfiles⟩

theorem Holds.follow {secrets : Lister Secret} {st : CertStore} {k : Key} {r r' : Rendering}
    (h : st.Holds k r) (hk : k.Legible) (hr : r.Of k)
    (hd : ∀ f ∈ k.files, st.directory.Accepts f) (hr' : rendering secrets k = .ok r')
    {call : StoreCall} (hcall : call = .update k.text ∨ call = .resync ∧ st.Apart k) :
    (st.follow secrets call).1.cached.get? k.text = some r'.material ∧
      (Written (st.follow secrets call).1.directory r'.parts ↔
        ¬(r.material = r'.material ∧ r.parts ≠ r'.parts)) := by
  rcases hcall with rfl | ⟨rfl, hapart⟩
  · exact h.refresh hk hr hd hr'
  · exact h.resync hk hr hd hr' hapart

/-! ### From one version to the next -/

/-- A secret that was materialized changes, and the store is told. Then the store knows the new
version, and the files hold it unless the change was a mere redivision of the bytes. -/
theorem written_iff_not_redivided {k : Key} (hk : k.Legible) {st : CertStore}
    {l l' : Lister Secret} {s s' : Secret} {r r' : Rendering}
    (hm : st.cached.get? k.text = none) (hd : ∀ f ∈ k.files, st.directory.Accepts f)
    (hs : l.find? k = some s) (hr : s.render k = .ok r)
    (hs' : l'.find? k = some s') (hr' : s'.render k = .ok r')
    (hsha : Sha256.hexDigest r.contents = Sha256.hexDigest r'.contents →
      r.contents = r'.contents)
    {call : StoreCall} (hcall : call = .update k.text ∨ call = .resync ∧ st.Apart k) :
    let st' := ((certificate l st k).1.follow l' call).1
    st'.cached.get? k.text = some r'.material ∧
      (Written st'.directory r'.parts ↔ ¬r.Redivided r') := by
  intro st'
  have hof := Secret.render_of hr
  have hnew := rendering_eq_ok_iff.2 ⟨s', hs', hr'⟩
  have hholds := holds_certificate hm hd (rendering_eq_ok_iff.2 ⟨s, hs, hr⟩)
  have hd' : ∀ f ∈ k.files, (certificate l st k).1.directory.Accepts f :=
    fun f hf => certificate_accepts l (hd f hf) k
  rw [hof.redivided_iff (Secret.render_of hr') hsha]
  exact hholds.follow hk hof hd' hnew (hcall.imp_right (And.imp_right fun h => h.certificate l))

theorem written_iff_not_redivided_of_authorities :
    let k : Key := ⟨"default", "ca"⟩
    let l : Lister Secret := Lister.empty.step (.apply (.ofAuthorities k [65, 66] [67]))
    let l' : Lister Secret := l.step (.apply (.ofAuthorities k [68] [69]))
    Written ((certificate l .empty k).1.follow l' .resync).1.directory
      (Rendering.parts ⟨none, some ⟨k.authoritiesFile, [68]⟩, some ⟨k.revocationsFile, [69]⟩⟩) := by
  intro k l l'
  have hk : k.Qualified := by decide
  have hsha : Sha256.hexDigest [65, 66, 67] ≠ Sha256.hexDigest [68, 69] := by decide +kernel
  have hl : l.Indexed :=
    Lister.indexed_empty.step fun _ he => Option.some.inj he ▸ Secret.named_ofAuthorities hk _ _
  have hs : l.find? k = some (.ofAuthorities k [65, 66] [67]) :=
    Lister.find?_step_ofAuthorities Lister.indexed_empty hk _ _
  have hs' : l'.find? k = some (.ofAuthorities k [68] [69]) :=
    Lister.find?_step_ofAuthorities hl hk _ _
  have hm : CertStore.empty.cached.get? k.text = none := rfl
  have hcall : StoreCall.resync = .update k.text ∨
      StoreCall.resync = .resync ∧ CertStore.empty.Apart k :=
    .inr ⟨rfl, fun _ _ h => by cases h⟩
  have hiff := written_iff_not_redivided hk.toLegible hm (by decide) hs
    (Secret.render_ofAuthorities k [65, 66] [67]) hs' (Secret.render_ofAuthorities k [68] [69])
    (fun h => absurd h hsha) hcall
  exact hiff.2.2 fun hdiv => by cases hdiv.contents

/-- The authorities AB and the revocations C become A and BC: the files stay as they were. -/
theorem moved_byte_not_written :
    let k : Key := ⟨"default", "ca"⟩
    let l : Lister Secret := Lister.empty.step (.apply (.ofAuthorities k [65, 66] [67]))
    let l' : Lister Secret := l.step (.apply (.ofAuthorities k [65] [66, 67]))
    let r' : Rendering :=
      ⟨none, some ⟨k.authoritiesFile, [65]⟩, some ⟨k.revocationsFile, [66, 67]⟩⟩
    rendering l' k = .ok r' ∧
      ((certificate l .empty k).1.follow l' (.update k.text)).1.cached.get? k.text =
        some r'.material ∧
      ¬Written ((certificate l .empty k).1.follow l' (.update k.text)).1.directory r'.parts := by
  intro k l l' r'
  have hk : k.Qualified := by decide
  have hl : l.Indexed :=
    Lister.indexed_empty.step fun _ he => Option.some.inj he ▸ Secret.named_ofAuthorities hk _ _
  have hs : l.find? k = some (.ofAuthorities k [65, 66] [67]) :=
    Lister.find?_step_ofAuthorities Lister.indexed_empty hk _ _
  have hs' : l'.find? k = some (.ofAuthorities k [65] [66, 67]) :=
    Lister.find?_step_ofAuthorities hl hk _ _
  have hr := Secret.render_ofAuthorities k [65, 66] [67]
  have hr' : rendering l' k = .ok r' :=
    rendering_eq_ok_iff.2 ⟨_, hs', Secret.render_ofAuthorities k [65] [66, 67]⟩
  have hm : CertStore.empty.cached.get? k.text = none := rfl
  have hd : ∀ f ∈ k.files, CertStore.empty.directory.Accepts f := by decide
  have hholds := holds_certificate hm hd (rendering_eq_ok_iff.2 ⟨_, hs, hr⟩)
  have hof := Secret.render_of hr
  have hdiv := Rendering.redivided_ofAuthorities k [65] [67] (List.cons_ne_nil 66 [])
  have hsame := (hof.redivided_iff (rendering_of hr') fun _ => hdiv.contents).1 hdiv
  have hnow := hholds.follow hk.toLegible hof
    (fun f hf => certificate_accepts l (hd f hf) k) hr' (.inl rfl)
  exact ⟨hr', hnow.1, fun hw => hnow.2.1 hw hsame⟩

end CertStore

end IngressCache
