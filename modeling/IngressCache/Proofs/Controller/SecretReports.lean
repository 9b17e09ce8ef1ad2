import IngressCache.Proofs.Controller.Activity
import IngressCache.Proofs.Material.Interleaving

/-!
# Reports of a secret and its entry

The store files what it knows of a secret under the written form of its key, and a change is
reported under the form that always has a slash. The two agree for every key with a namespace. For
one without, the report names a text that no entry of the secret is filed under: the entry stays as
it was.
-/

namespace IngressCache

/-! ### The two written forms -/

theorem Key.path_eq_text_iff (k : Key) : k.path = k.text ↔ k.ns ≠ "" := by
  constructor
  · intro heq hns
    rw [text_of_ns_empty hns] at heq
    have hlength := congrArg (fun s : String => s.toList.length) heq
    simp only [toList_path, List.length_append, List.length_cons] at hlength
    omega
  · exact fun hns => (text_of_ns_ne_empty hns).symm

theorem objectKey_of_metadata {s : Secret} {k : Key} (hns : s.metadata.ns = some k.ns)
    (hname : s.metadata.name = some k.name) : objectKey s = k.path :=
  congrArg Key.path (Named.keyOf_eq hns hname)

/-- A change that names an object is told to the store as an update or a deletion of it. -/
theorem Event.storeCall_of_latest {change : Change Secret} {s : Secret}
    (h : change.latest = some s) :
    ∃ call, (Event.secret change).storeCall = some call ∧
      ∀ t, CertStore.settles call t ↔ t = objectKey s := by
  rcases change with ⟨_ | old, _ | current⟩
  · cases h
  · obtain rfl := Option.some.inj h
    exact ⟨_, rfl, fun _ => Iff.rfl⟩
  · obtain rfl := Option.some.inj h
    exact ⟨_, rfl, fun _ => Iff.rfl⟩
  · obtain rfl := Option.some.inj h
    exact ⟨_, rfl, fun _ => Iff.rfl⟩

/-! ### What a report does to the entry -/

theorem CertStore.not_current_of_absent {secrets : Lister Secret} {k : Key}
    (h : secrets.find? k = none) (m : Material) : ¬Current secrets k m := by
  rintro ⟨r, hr, -⟩
  obtain ⟨s, hs, -⟩ := rendering_eq_ok_iff.1 hr
  cases h.symm.trans hs

theorem SecretStore.files_of_known? {store : SecretStore} {t : String} {m : Material}
    (h : store.known? t = some m) : ∃ st, store = .files st ∧ st.cached.get? t = some m := by
  cases store with
  | files st => exact ⟨st, rfl, h⟩
  | observer breaks => cases h

namespace Controller

theorem known?_notify {c : Controller} {st : CertStore} (hst : c.store = .files st) (e : Event)
    (t : String) :
    (c.notify e).1.store.known? t = (st.after c.listers.secrets e).cached.get? t := by
  rw [(notify_files hst e).2]
  rfl

/-- A lookup has made the entry of a secret, the listers have changed since, and a change of the
secret is reported. Then the entry is gone or says what the secret renders to now, exactly if the
secret has a namespace, or the entry said so before the report. -/
theorem entry_current_iff_namespaced {c : Controller} {k : Key} (hk : k.Legible) {m : Material}
    (hm : c.store.known? k.text = some m) (ls : Listers) {change : Change Secret} {s : Secret}
    (hs : change.latest = some s) (hns : s.metadata.ns = some k.ns)
    (hname : s.metadata.name = some k.name) :
    let c' := ({ c with listers := ls }.notify (.secret change)).1
    (∀ m', c'.store.known? k.text = some m' → CertStore.Current ls.secrets k m') ↔
      k.ns ≠ "" ∨ CertStore.Current ls.secrets k m := by
  intro c'
  obtain ⟨st, hst, hcached⟩ := SecretStore.files_of_known? hm
  obtain ⟨call, hcall, hsettles⟩ := Event.storeCall_of_latest hs
  have hpath : objectKey s = k.path := objectKey_of_metadata hns hname
  have hafter : st.after ls.secrets (.secret change) = (st.follow ls.secrets call).1 := by
    unfold CertStore.after
    rw [hcall]
  have hknown : ∀ t, c'.store.known? t = (st.follow ls.secrets call).1.cached.get? t := by
    intro t
    rw [← hafter]
    exact known?_notify (c := { c with listers := ls }) hst _ t
  simp only [hknown]
  by_cases hnamed : k.ns = ""
  · have hmissed : ¬CertStore.settles call k.text := by
      rw [hsettles, hpath]
      exact fun heq => (Key.path_eq_text_iff k).1 heq.symm hnamed
    rw [CertStore.follow_cached_of_not_settles _ _ hmissed, hcached]
    simp [hnamed]
  · have hreached : CertStore.settles call k.text := by
      rw [hsettles, hpath]
      exact ((Key.path_eq_text_iff k).2 hnamed).symm
    have hcurrent := CertStore.follow_currentAt ls.secrets st hreached
    exact iff_of_true ((CertStore.currentAt_text_iff hk).1 hcurrent) (.inl hnamed)

/-- A secret with authorities is listed and looked up by its own written key. -/
def consulted (k : Key) : Controller :=
  (start .default Settings.default.acmeKeys (.files .empty)).run
    [.observe .secret (.apply (.ofAuthorities k [65] [66])), .ca ⟨"", k.text, .global⟩]

theorem entry_current_of_namespaced :
    let k : Key := ⟨"default", "ca"⟩
    let ls := (consulted k).listers.step .secret (.apply (.ofAuthorities k [67] [68]))
    let c' := ({ consulted k with listers := ls }.notify (.secret
      ⟨some (.ofAuthorities k [65] [66]), some (.ofAuthorities k [67] [68])⟩)).1
    ∃ m m', (consulted k).store.known? k.text = some m ∧ ¬CertStore.Current ls.secrets k m ∧
      c'.store.known? k.text = some m' ∧ CertStore.Current ls.secrets k m' := by
  intro k ls c'
  have hbefore : ((consulted k).store.known? k.text).any
      (fun m => ¬CertStore.Current ls.secrets k m) = true := by
    decide +kernel
  have hafter : (c'.store.known? k.text).isSome = true := by
    decide +kernel
  obtain ⟨m, hm, hstale⟩ := (Option.any_eq_true _ _).1 hbefore
  obtain ⟨m', hm'⟩ := Option.isSome_iff_exists.1 hafter
  have hlatest : (⟨some (.ofAuthorities k [65] [66]), some (.ofAuthorities k [67] [68])⟩ :
      Change Secret).latest = some (.ofAuthorities k [67] [68]) := rfl
  have hcurrent := (entry_current_iff_namespaced (by decide) hm ls hlatest rfl rfl).2
    (.inl (by decide))
  exact ⟨m, m', hm, of_decide_eq_true hstale, hm', hcurrent m' hm'⟩

/-- A secret without a namespace is deleted, the deletion is reported, and the entry is there as
before. -/
theorem entry_left_of_bare :
    let k : Key := ⟨"", "ca"⟩
    let c := (consulted k).act (.observe .secret (.delete (.ofAuthorities k [65] [66])))
    c.listers.secrets.find? k = none ∧ (c.store.known? k.text).isSome = true ∧
      ¬∀ m, c.store.known? k.text = some m → CertStore.Current c.listers.secrets k m := by
  intro k c
  have hgone : c.listers.secrets.find? k = none := by
    decide +kernel
  have hleft : (c.store.known? k.text).isSome = true := by
    decide +kernel
  refine ⟨hgone, hleft, fun hcurrent => ?_⟩
  obtain ⟨m, hm⟩ := Option.isSome_iff_exists.1 hleft
  exact CertStore.not_current_of_absent hgone m (hcurrent m hm)

end Controller

end IngressCache
