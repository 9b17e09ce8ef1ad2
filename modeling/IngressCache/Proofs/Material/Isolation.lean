import IngressCache.Proofs.Material.FileAccess

/-!
# Isolation

A call that is made for one secret writes and removes files of that secret alone, and the entry that
it reads and changes is the one under that secret's text. So it keeps off every other secret,
whatever the disk does and whatever fails, as long as namespaces and names have no joints.
-/

namespace IngressCache

/-- What is seen under a name stays when another file is written or removed, whether or not that
succeeds. -/
structure Disk.Separates {δ ν : Type} (D : Disk δ) (look : δ → String → ν) : Prop where
  write : ∀ (d : δ) {f g : String}, f ≠ g → ∀ content, look (D.write d g content).1 f = look d f
  remove : ∀ (d : δ) {f g : String}, f ≠ g → look (D.remove d g) f = look d f

namespace Disk

variable {δ ν : Type} {D : Disk δ}

theorem separates_directory : directory.Separates Table.get? where
  write d f g hne content := by
    rw [directory_write]
    cases hw : d.write g content with
    | error fault => rfl
    | ok d' =>
      rw [Directory.eq_insert_of_write hw]
      exact Table.get?_insert_ne hne _ _
  remove d f g hne := by
    rw [directory_remove]
    cases hr : d.remove g with
    | error fault => rfl
    | ok d' =>
      rw [Directory.eq_erase_of_remove hr]
      exact Table.get?_erase_ne hne _

theorem Separates.keeps {look : δ → String → ν} (h : D.Separates look) (f : String) (d₀ : δ) :
    D.Keeps (f ≠ ·) fun d => look d f = look d₀ f where
  write hne hd content := (h.write _ hne content).trans hd
  remove hne hd := (h.remove _ hne).trans hd

end Disk

/-! ### Calls for one secret -/

/-- What is done for one secret: it is asked for, the store hears that it changed or went, and its
parameters are written. -/
inductive SecretCall
  | certificate
  | update
  | delete
  | dhParameters (content : Bytes)

def CertStore.attend (secrets : Lister Secret) (st : CertStore) (k : Key) : SecretCall → CertStore
  | .certificate => (certificate secrets st k).1
  | .update => (st.follow secrets (.update k.text)).1
  | .delete => (st.follow secrets (.delete k.text)).1
  | .dhParameters content => (st.addDhParameters k.fileStem content).1

namespace StoreOn
open CertStore

variable {δ ν : Type} {D : Disk δ} {secrets : Lister Secret} {st : StoreOn δ} {j k : Key}
  {t t' : String} {m : Material}

def attend (D : Disk δ) (secrets : Lister Secret) (st : StoreOn δ) (k : Key) :
    SecretCall → StoreOn δ
  | .certificate => st.certificate D secrets k
  | .update => st.follow D secrets (.update k.text)
  | .delete => st.follow D secrets (.delete k.text)
  | .dhParameters content => st.addDhParameters D k.fileStem content

theorem attend_eq {view : δ → Directory} (h : D.Holds view) (secrets : Lister Secret)
    (st : StoreOn δ) (k : Key) (call : SecretCall) :
    CertStore.attend secrets (st.view view) k call = (st.attend D secrets k call).view view := by
  cases call with
  | certificate => exact h.certificate_eq secrets st k
  | update => exact h.follow_eq secrets st _
  | delete => exact h.follow_eq secrets st _
  | dhParameters content => exact h.addDhParameters_eq st _ content

/-! ### What a call touches -/

theorem attend_cached_ne (h : t ≠ k.text) (call : SecretCall) :
    (st.attend D secrets k call).cached.get? t = st.cached.get? t := by
  cases call with
  | certificate => exact certificate_cached_ne h
  | update => exact refresh_cached_ne h
  | delete => exact (evict_cached st k.text t).trans (if_neg h)
  | dhParameters content => exact congrArg (·.get? t) (addDhParameters_cached _ content)

/-- A call accesses files of its secret and those that the entry of its secret names. -/
theorem attend_disk {P : String → Prop} {I : δ → Prop} (hD : D.Keeps P I)
    (hP : ∀ f ∈ k.files, P f)
    (hm : ∀ m, st.cached.get? k.text = some m → ∀ f ∈ m.files, P f) (hk : k.Legible)
    (call : SecretCall) (h : I st.disk) : I (st.attend D secrets k call).disk := by
  cases call with
  | certificate => exact certificate_disk hD hP h
  | update =>
    refine refresh_disk hD (fun i hi => ?_) hm h
    rw [Key.parse_text hk] at hi
    rwa [← Except.ok.inj hi]
  | delete => exact evict_disk hD hm h
  | dhParameters content => exact addDhParameters_disk hD hP content h

/-! ### States -/

/-- The states of a store: a new one on any disk, what the calls make of it whatever the lister has
then, and what becomes of it when anything happens to the disk. -/
inductive Reached (D : Disk δ) : StoreOn δ → Prop
  | new (d : δ) : Reached D ⟨d, .empty⟩
  | certificate {st : StoreOn δ} (h : Reached D st) (secrets : Lister Secret) (k : Key) :
      Reached D (st.certificate D secrets k)
  | follow {st : StoreOn δ} (h : Reached D st) (secrets : Lister Secret) (call : StoreCall) :
      Reached D (st.follow D secrets call)
  | addDhParameters {st : StoreOn δ} (h : Reached D st) (name : String) (content : Bytes) :
      Reached D (st.addDhParameters D name content)
  | disk {st : StoreOn δ} (h : Reached D st) (d : δ) : Reached D ⟨d, st.cached⟩

/-- The material has files of a secret whose text this is, written or read. -/
def FilesOf (t : String) (m : Material) : Prop :=
  ∃ k : Key, (k.text = t ∨ Key.parse t = .ok k) ∧ ∀ f ∈ m.files, f ∈ k.files

theorem filesOf_of_renderingOf {r : Rendering} (hr : renderingOf secrets t = .ok r) :
    FilesOf t r.material := by
  obtain ⟨k, hk, hr⟩ := renderingOf_eq_ok hr
  exact ⟨k, .inr hk, mem_files_of_rendering hr⟩

theorem Reached.filesOf (h : st.Reached D) {t : String} {m : Material}
    (hm : st.cached.get? t = some m) : FilesOf t m := by
  induction h generalizing t m with
  | new d => cases hm
  | certificate h secrets k ih =>
    by_cases ht : t = k.text
    · subst ht
      rcases certificate_cached_self hm with hm | ⟨r, hr, rfl⟩
      · exact ih hm
      · exact ⟨k, .inl rfl, mem_files_of_rendering hr⟩
    · exact ih ((certificate_cached_ne ht).symm.trans hm)
  | follow h secrets call ih =>
    cases call with
    | update u =>
      by_cases ht : t = u
      · subst ht
        obtain ⟨-, r, hr, rfl⟩ := refresh_cached_self hm
        exact filesOf_of_renderingOf hr
      · exact ih ((refresh_cached_ne ht).symm.trans hm)
    | delete u =>
      have hm := (evict_cached _ u t).symm.trans hm
      split at hm
      · cases hm
      · exact ih hm
    | resync =>
      obtain ⟨hbefore, hvisited⟩ := reconcileAll_cached hm
      obtain ⟨r, hr, rfl⟩ := hvisited (Table.mem_keys.2 hbefore)
      exact filesOf_of_renderingOf hr
  | addDhParameters h name content ih =>
    rw [addDhParameters_cached] at hm
    exact ih hm
  | disk h d ih => exact ih hm

end StoreOn

namespace Key

theorem eq_or_slash_of_text_eq {i j : Key} (hj : j.Legible) (h : i.text = j.text) :
    i = j ∨ '/' ∈ i.name.toList := by
  by_cases hname : '/' ∈ i.name.toList
  · exact .inr hname
  · by_cases hns : j.ns = ""
    · have hi : '/' ∉ i.text.toList := by
        rw [h, text_of_ns_empty hns]
        exact hj.name_plain
      have hempty : i.ns = "" := by
        by_contra hne
        rw [text_of_ns_ne_empty hne, toList_path] at hi
        exact hi (List.mem_append_right _ List.mem_cons_self)
      rw [text_of_ns_empty hns, text_of_ns_empty hempty] at h
      cases i
      cases j
      cases hns
      cases hempty
      cases h
      exact .inl rfl
    · exact .inl (eq_of_text_eq hname ⟨hj, hns⟩ h)

theorem slash_mem_of_mem_files {k : Key} (h : '/' ∈ k.name.toList) {f : String}
    (hf : f ∈ k.files) : '/' ∈ f.toList := by
  obtain ⟨s, -, rfl⟩ := exists_suffix_of_mem_files hf
  rw [toList_fileStem_append]
  exact List.mem_append_right _ (List.mem_cons_of_mem _ (List.mem_append_left _ h))

end Key

namespace StoreOn

variable {δ ν : Type} {D : Disk δ} {st : StoreOn δ} {j k : Key} {m : Material}

theorem FilesOf.not_mem (hm : FilesOf j.text m) (hj : j.Simple) (hk : k.Simple) (hjk : j ≠ k)
    {f : String} (hf : f ∈ k.files) : f ∉ m.files := by
  intro hfm
  obtain ⟨i, hi, hfiles⟩ := hm
  have hfi := hfiles f hfm
  have hij : i = j ∨ '/' ∈ i.name.toList := by
    rcases hi with htext | hparse
    · exact Key.eq_or_slash_of_text_eq hj.toLegible htext
    · rw [Key.parse_text hj.toLegible] at hparse
      exact .inl (Except.ok.inj hparse).symm
  rcases hij with rfl | hslash
  · exact hjk (Key.eq_of_mem_files hj hk hfi hf)
  · have hplain := (Key.isComponent_of_mem_files hk.toLegible hf).plain
    exact hplain (Key.slash_mem_of_mem_files hslash hfi)

/-- A call for one secret, whether or not it succeeds, leaves what is known of another one, and all
files of the other one that the first one's entry does not name. In no state of a store does it name
any, so all files of the other one stay. Where the disk holds a directory, this is the call of the
store of that directory. -/
theorem others_kept {look : δ → String → ν} (hD : D.Separates look) (secrets : Lister Secret)
    (st : StoreOn δ) (hj : j.Simple) (hk : k.Simple) (hjk : j ≠ k) (call : SecretCall) :
    let st' := st.attend D secrets j call
    st'.cached.get? k.text = st.cached.get? k.text ∧
      (∀ f ∈ k.files, (∀ m, st.cached.get? j.text = some m → f ∉ m.files) →
        look st'.disk f = look st.disk f) ∧
      (st.Reached D → ∀ f ∈ k.files, look st'.disk f = look st.disk f) ∧
      ∀ view, D.Holds view →
        CertStore.attend secrets (st.view view) j call = st'.view view := by
  intro st'
  have htext : k.text ≠ j.text := fun he =>
    hjk (Key.text_injective hk.toLegible hj.toLegible he).symm
  have hfiles : ∀ f ∈ k.files, (∀ m, st.cached.get? j.text = some m → f ∉ m.files) →
      look st'.disk f = look st.disk f := by
    intro f hf hm
    have hown : ∀ g ∈ j.files, f ≠ g := by
      rintro g hg rfl
      exact hjk (Key.eq_of_mem_files hj hk hg hf)
    have hentry : ∀ m, st.cached.get? j.text = some m → ∀ g ∈ m.files, f ≠ g := by
      rintro m hm' g hg rfl
      exact hm m hm' hg
    exact attend_disk (hD.keeps f st.disk) hown hentry hj.toLegible call rfl
  refine ⟨attend_cached_ne htext call, hfiles, fun hst f hf => ?_,
    fun view hview => attend_eq hview secrets st j call⟩
  exact hfiles f hf fun m hm => (hst.filesOf hm).not_mem hj hk hjk hf

/-- A folder is in the way of a file of one secret when that secret changes. Its refresh fails and
it goes, and the other secret has all it had. -/
theorem others_kept_of_obstructed :
    let j : Key := ⟨"web", "old"⟩
    let k : Key := ⟨"web", "new"⟩
    let both : Lister Secret := (Lister.empty.step (.apply (.ofAuthorities j [65] [66]))).step
      (.apply (.ofAuthorities k [67] [68]))
    let known := (StoreOn.certificate .directory both ⟨.empty, .empty⟩ j).certificate .directory both k
    let st : StoreOn Directory := ⟨known.disk.insert j.revocationsFile .folder, known.cached⟩
    let st' := st.attend .directory (both.step (.apply (.ofAuthorities j [69] [70]))) j .update
    st.cached.keys = [k.text, j.text] ∧ st'.cached.keys = [k.text] ∧
      st'.cached.get? k.text = st.cached.get? k.text ∧
      (∀ f ∈ k.files, st'.disk.get? f = st.disk.get? f) ∧
      st'.disk.content? k.authoritiesFile = some [67] := by
  intro j k both known st st'
  have hnew : Reached .directory ⟨Table.empty, .empty⟩ := .new Table.empty
  have hknown : known.Reached .directory := (hnew.certificate both j).certificate both k
  have hst : st.Reached .directory := hknown.disk (known.disk.insert j.revocationsFile .folder)
  obtain ⟨hcached, -, hfiles, -⟩ := others_kept Disk.separates_directory
    (both.step (.apply (.ofAuthorities j [69] [70]))) st (j := j) (k := k) (by decide) (by decide)
    (by decide) .update
  exact ⟨by decide +kernel, by decide +kernel, hcached, hfiles hst, by decide +kernel⟩

end StoreOn

end IngressCache
