import IngressCache.Proofs.Material.Inventory
import IngressCache.Proofs.Material.Separation
import IngressCache.Proofs.Material.SharedFile

/-!
# Files that no entry names

The entry of a secret names the files of its rendering, and they go with it. Parameters for key
exchange are written to the file of the bundle, and no entry names it on their account. So the file
stays, until there is an entry with a bundle.
-/

namespace IngressCache.CertStore
open Directory

/-- The entry of the secret names the file. -/
def OwnsFor (st : CertStore) (k : Key) (f : String) : Prop :=
  ∃ m, st.cached.get? k.text = some m ∧ f ∈ m.files

theorem Keeps.ownsFor_iff {st st' : CertStore} {k : Key} (h : st.Keeps st' k) (f : String) :
    st'.OwnsFor k f ↔ st.OwnsFor k f := by
  rw [OwnsFor, OwnsFor, h.cached]

theorem ownsFor_iff_of_some {st : CertStore} {k : Key} {m : Material}
    (h : st.cached.get? k.text = some m) (f : String) : st.OwnsFor k f ↔ f ∈ m.files := by
  simp [OwnsFor, h]

theorem not_ownsFor_of_none {st : CertStore} {k : Key} (h : st.cached.get? k.text = none)
    (f : String) : ¬st.OwnsFor k f := by
  simp [OwnsFor, h]

/-- The files of a secret are those that its entry names, and that of the bundle if it is left. -/
structure TidyBut (k : Key) (left : Prop) (st : CertStore) : Prop where
  apart : st.Apart k
  directory : st.directory.Private
  entry : ∀ m, st.cached.get? k.text = some m → ∃ r, Rendering.Of r k ∧ m = r.material
  files : ∀ f ∈ k.files, st.directory.Removable f ↔ st.OwnsFor k f ∨ f = k.bundleFile ∧ left
  unnamed : left → ¬st.OwnsFor k k.bundleFile

theorem tidyBut_empty (k : Key) : TidyBut k False .empty where
  apart t m hm := by cases hm
  directory := tidy_empty.directory
  entry m hm := by cases hm
  files f _ := by
    rw [tidy_empty.files]
    constructor
    · rintro ⟨t, m, hm, -⟩
      cases hm
    · rintro (⟨m, hm, -⟩ | ⟨-, h⟩)
      · cases hm
      · exact h.elim
  unnamed h := h.elim

namespace TidyBut

variable {secrets : Lister Secret} {k : Key} {left : Prop} {st st' : CertStore}

theorem congr (h : TidyBut k left st) (hk : st.Keeps st' k) (hd : st'.directory.Private) :
    TidyBut k left st' where
  apart := hk.apart
  directory := hd
  entry m hm := h.entry m (hk.cached.symm.trans hm)
  files f hf := by
    rw [removable_iff, hk.files f hf, ← removable_iff, hk.ownsFor_iff]
    exact h.files f hf
  unnamed hl := by
    rw [hk.ownsFor_iff]
    exact h.unnamed hl

/-- What is left is not named. Each operation below says so of the store that it makes. -/
theorem settled (h : TidyBut k left st) : TidyBut k (left ∧ ¬st.OwnsFor k k.bundleFile) st := by
  rwa [and_iff_left_of_imp h.unnamed]

/-! ### The secret's own entry -/

theorem evict (h : TidyBut k left st) :
    TidyBut k (left ∧ ¬(st.evict k.text).1.OwnsFor k k.bundleFile) (st.evict k.text).1 := by
  cases hm : st.cached.get? k.text with
  | none =>
    have hsame : (st.evict k.text).1 = st := by
      unfold CertStore.evict
      rw [hm]
    rw [hsame]
    exact h.settled
  | some m =>
    have hgone : (st.evict k.text).1.cached.get? k.text = none := by
      rw [evict_cached, if_pos rfl]
    have hdirectory : (st.evict k.text).1.directory = (removeFiles st.directory m.files).1 := by
      unfold CertStore.evict
      rw [hm]
    have hnone := not_ownsFor_of_none hgone
    refine ⟨h.apart.congr fun t ht => ?_, lasting_private.evict h.directory _, fun m' hm' => ?_,
      fun f hf => ?_, fun hl => hl.2⟩
    · rw [evict_cached, if_neg ht]
    · cases hgone.symm.trans hm'
    · rw [hdirectory, removable_removeFiles, h.files f hf, ownsFor_iff_of_some hm]
      constructor
      · rintro ⟨hown | ⟨rfl, hl⟩, hnot⟩
        · exact absurd hown hnot
        · exact .inr ⟨rfl, hl, hnone _⟩
      · rintro (hown | ⟨rfl, hl, -⟩)
        · exact absurd hown (hnone f)
        · exact ⟨.inr ⟨rfl, hl⟩, fun hf => h.unnamed hl ((ownsFor_iff_of_some hm _).2 hf)⟩

/-- The entry is set to a rendering that was written, and the files that it named before and names
no longer are removed. -/
theorem put (h : TidyBut k left st) {r : Rendering} (hr : r.Of k)
    (hw : (writeParts st.directory r.parts).2 = none) (gone : List String)
    (hgone : ∀ f ∈ gone, st.OwnsFor k f ∧ f ∉ r.material.files)
    (hold : ∀ f, st.OwnsFor k f → f ∈ r.material.files ∨ f ∈ gone)
    (hst : st' = ⟨(removeFiles (writeParts st.directory r.parts).1 gone).1,
      st.cached.insert k.text r.material⟩) :
    TidyBut k (left ∧ ¬st'.OwnsFor k k.bundleFile) st' := by
  have hnow : st'.cached.get? k.text = some r.material := by
    rw [hst]
    exact Table.get?_insert_self _ _ _
  refine ⟨h.apart.congr fun t ht => ?_, ?_, fun m hm => ?_, fun f hf => ?_, fun hl => hl.2⟩
  · rw [hst]
    exact Table.get?_insert_ne ht _ _
  · rw [hst]
    exact lasting_private.removeFiles (lasting_private.writeParts h.directory r.parts) gone
  · exact ⟨r, hr, Option.some.inj (hm.symm.trans hnow)⟩
  · rw [ownsFor_iff_of_some hnow, ownsFor_iff_of_some hnow, hst, removable_removeFiles,
      removable_writeParts, writable_of_none hw, ← Rendering.files_material, h.files f hf]
    constructor
    · rintro ⟨(hown | ⟨rfl, hl⟩) | hnew, hnot⟩
      · exact .inl ((hold f hown).resolve_right hnot)
      · by_cases hnew : k.bundleFile ∈ r.material.files
        · exact .inl hnew
        · exact .inr ⟨rfl, hl, hnew⟩
      · exact .inl hnew
    · rintro (hnew | ⟨rfl, hl, -⟩)
      · exact ⟨.inr hnew, fun hg => (hgone f hg).2 hnew⟩
      · exact ⟨.inl (.inr ⟨rfl, hl⟩), fun hg => h.unnamed hl (hgone _ hg).1⟩

theorem refresh (h : TidyBut k left st) (hk : k.Legible)
    (hquiet : ∀ w ∈ (st.refresh secrets k.text).2, reportsFault w = false) :
    TidyBut k (left ∧ ¬(st.refresh secrets k.text).1.OwnsFor k k.bundleFile)
      (st.refresh secrets k.text).1 := by
  have hcase := refreshed secrets st k.text
  generalize hst : (st.refresh secrets k.text).1 = st' at hcase ⊢
  cases hcase with
  | unknown hm => exact h.settled
  | gone m hm f hr => exact h.evict
  | same m hm r hr he => exact h.settled
  | unwritten m hm r hr hne f hw => cases hquiet _ (refresh_reports hm hr hne hw)
  | written m hm r hr hne hw =>
    obtain ⟨r₀, hr₀, rfl⟩ := h.entry m hm
    have hof : r.Of k := rendering_of ((renderingOf_text secrets hk).symm.trans hr)
    refine h.put hof hw (dropped r₀.material r.material) (fun f hf => ⟨?_, ?_⟩)
      (fun f hown => ?_) rfl
    · exact (ownsFor_iff_of_some hm f).2 (mem_files_of_dropped hf)
    · exact hr₀.not_mem_of_dropped hof hf
    · exact mem_files_or_dropped r.material ((ownsFor_iff_of_some hm f).1 hown)

theorem reconcile (h : TidyBut k left st) (hk : k.Legible)
    (hquiet : ∀ w ∈ (st.reconcile secrets k.text).2, reportsFault w = false) :
    TidyBut k (left ∧ ¬(st.reconcile secrets k.text).1.OwnsFor k k.bundleFile)
      (st.reconcile secrets k.text).1 := by
  rcases reconcile_eq secrets st k.text with he | he <;> rw [he] at hquiet ⊢
  · exact h.refresh hk hquiet
  · exact h.evict

/-- Of the visits to all secrets, one at most is to this one. -/
theorem reconcileAll (h : TidyBut k left st) (hk : k.Legible) {ts : List String} (hts : ts.Nodup)
    (hquiet : ∀ w ∈ (st.reconcileAll secrets ts).2, reportsFault w = false) :
    TidyBut k (left ∧ ¬(st.reconcileAll secrets ts).1.OwnsFor k k.bundleFile)
      (st.reconcileAll secrets ts).1 := by
  induction ts generalizing st with
  | nil => exact h.settled
  | cons t ts ih =>
    have hvisit : ∀ w ∈ (st.reconcile secrets t).2, reportsFault w = false := fun w hw =>
      hquiet w (List.mem_append_left _ hw)
    have hrest : ∀ w ∈ ((st.reconcile secrets t).1.reconcileAll secrets ts).2,
        reportsFault w = false := fun w hw => hquiet w (List.mem_append_right _ hw)
    rw [List.nodup_cons] at hts
    rw [reconcileAll_cons]
    by_cases ht : t = k.text
    · rw [ht] at hts hvisit ⊢
      have hown := h.reconcile hk hvisit
      have hkeeps := hown.apart.keeps_reconcileAll secrets hts.1
      rw [hkeeps.ownsFor_iff]
      exact hown.congr hkeeps (lasting_private.reconcileAll secrets hown.directory ts)
    · refine ih (h.congr (h.apart.keeps_reconcile secrets ht) ?_) hts.2 hrest
      exact lasting_private.reconcile secrets h.directory t

theorem follow (h : TidyBut k left st) (hk : k.Legible) {call : StoreCall}
    (hquiet : ∀ w ∈ (st.follow secrets call).2, reportsFault w = false) :
    TidyBut k (left ∧ ¬(st.follow secrets call).1.OwnsFor k k.bundleFile)
      (st.follow secrets call).1 := by
  have hdirectory := lasting_private.follow secrets h.directory call
  cases call with
  | update t =>
    by_cases ht : t = k.text
    · subst ht
      exact h.refresh hk hquiet
    · exact (h.congr (h.apart.keeps_refresh secrets ht) hdirectory).settled
  | delete t =>
    by_cases ht : t = k.text
    · subst ht
      exact h.evict
    · exact (h.congr (h.apart.keeps_evict ht) hdirectory).settled
  | resync => exact h.reconcileAll hk st.cached.nodup hquiet

/-! ### Lookups -/

theorem parameters (h : TidyBut k left st) {content : Bytes} {d : Directory}
    (hw : st.directory.write k.bundleFile content = .ok d) :
    TidyBut k (¬OwnsFor ⟨d, st.cached⟩ k k.bundleFile) ⟨d, st.cached⟩ where
  apart := h.apart
  directory := lasting_private.write h.directory hw
  entry := h.entry
  files f hf := by
    have hsame : ∀ g, OwnsFor ⟨d, st.cached⟩ k g ↔ st.OwnsFor k g := fun _ => Iff.rfl
    rw [hsame, hsame, eq_insert_of_write hw, removable_insert (isFileName_of_write hw),
      h.files f hf]
    constructor
    · rintro (rfl | hown | ⟨rfl, hl⟩)
      · by_cases hown : st.OwnsFor k k.bundleFile
        · exact .inl hown
        · exact .inr ⟨rfl, hown⟩
      · exact .inl hown
      · exact .inr ⟨rfl, h.unnamed hl⟩
    · rintro (hown | ⟨rfl, -⟩)
      · exact .inr (.inl hown)
      · exact .inl rfl
  unnamed := id

theorem certificate (h : TidyBut k left st) {m : Material}
    (hm : (certificate secrets st k).2 = .ok m) :
    TidyBut k (left ∧ ¬(certificate secrets st k).1.OwnsFor k k.bundleFile)
      (certificate secrets st k).1 := by
  have hcase := asked secrets st k
  generalize CertStore.certificate secrets st k = x at hcase hm ⊢
  cases hcase with
  | known m hm => exact h.settled
  | unrendered hm' f hr => cases hm
  | unwritten hm' r hr f hw => cases hm
  | written hm' r hr hw =>
    exact h.put (rendering_of hr) hw [] (fun f hf => absurd hf List.not_mem_nil)
      (fun f hown => absurd hown (not_ownsFor_of_none hm' f)) rfl

end TidyBut

theorem Apart.keeps_certificate {st : CertStore} {j k : Key} (h : st.Apart k) (hj : j.Simple)
    (hk : k.Simple) (hjk : j ≠ k) (secrets : Lister Secret) :
    st.Keeps (CertStore.certificate secrets st j).1 k := by
  have htext : j.text ≠ k.text := fun he => hjk (Key.text_injective hj.toLegible hk.toLegible he)
  have hfiles : ∀ f ∈ k.files, f ∉ j.files := fun f hf hfj =>
    hjk (Key.eq_of_mem_files hj hk hfj hf)
  have hcase := asked secrets st j
  generalize CertStore.certificate secrets st j = x at hcase ⊢
  cases hcase with
  | known m hm => exact h.keeps_self
  | unrendered hm f hr => exact h.keeps_self
  | unwritten hm r hr f hw =>
    exact h.keeps_writeParts fun f hf hmem =>
      hfiles f hf ((rendering_of hr).files_sublist.subset hmem)
  | written hm r hr hw =>
    have hparts : ∀ f ∈ k.files, f ∉ r.parts.map Part.file := fun f hf hmem =>
      hfiles f hf ((rendering_of hr).files_sublist.subset hmem)
    refine ⟨Table.get?_insert_ne htext.symm _ _, fun f hf => ?_, fun t m hm' ht f hf => ?_⟩
    · exact writeParts_get?_of_not_mem _ _ (hparts f hf)
    · rw [Table.get?_insert] at hm'
      split at hm'
      · rename_i heq
        obtain rfl := Option.some.inj hm'
        rw [Rendering.files_material, heq]
        refine ⟨hparts f hf, fun k' hk' => ?_⟩
        obtain rfl := Except.ok.inj ((Key.parse_text hj.toLegible).symm.trans hk')
        exact hfiles f hf
      · exact h t m hm' ht f hf

/-- What a lookup leaves of a secret's files: those of parameters are left if it wrote them and the
entry does not name them. -/
theorem TidyBut.served {secrets : Lister Secret} {j k : Key} {left : Prop} {st st' : CertStore}
    {e : Enquiry} {o : Handout} (h : TidyBut k left st) (hj : j.Simple) (hk : k.Simple)
    (hs : Served secrets j st e st' o) :
    TidyBut k ((left ∨ j = k ∧ e.renders = false) ∧ ¬st'.OwnsFor k k.bundleFile) st' := by
  have hasked : ∀ m, (CertStore.certificate secrets st j).2 = .ok m →
      TidyBut k (left ∧ ¬(CertStore.certificate secrets st j).1.OwnsFor k k.bundleFile)
        (CertStore.certificate secrets st j).1 := by
    intro m hm
    by_cases hjk : j = k
    · subst hjk
      exact h.certificate hm
    · exact (h.congr (h.apart.keeps_certificate hj hk hjk secrets)
        (lasting_private.certificate secrets h.directory j)).settled
  cases hs with
  | tls q m b hm hh => simpa [Enquiry.renders] using hasked m hm
  | ca q m a l hm hh => simpa [Enquiry.renders] using hasked m hm
  | dh q c b d hc hw hfile =>
    by_cases hjk : j = k
    · subst hjk
      simpa [Enquiry.renders] using h.parameters hw
    · have hkeeps : st.Keeps ⟨d, st.cached⟩ k := by
        refine ⟨rfl, fun f hf => ?_, h.apart⟩
        rw [eq_insert_of_write hw]
        refine Table.get?_insert_ne (fun he => hjk ?_) _ _
        exact Key.eq_of_mem_files hj hk (he ▸ List.mem_cons_self) hf
      simpa [hjk] using (h.congr hkeeps (lasting_private.write h.directory hw)).settled

end IngressCache.CertStore
