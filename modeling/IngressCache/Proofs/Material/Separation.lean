import IngressCache.Proofs.Material.Following

/-!
# Secrets that keep apart

Names of files are put together from namespace and name, so two secrets may share a file. Where the
secrets that the store knows keep off the files of one secret, whatever is done for them leaves
that secret's part of the store as it was.
-/

namespace IngressCache.CertStore

/-- No other secret that the store knows has a file of that secret's. -/
def Apart (st : CertStore) (k : Key) : Prop :=
  ∀ t m, st.cached.get? t = some m → t ≠ k.text → ∀ f ∈ k.files,
    f ∉ m.files ∧ ∀ k', Key.parse t = .ok k' → f ∉ k'.files

/-- The secret's own part of the store: what is known of it, and its files. -/
structure Keeps (st st' : CertStore) (k : Key) : Prop where
  cached : st'.cached.get? k.text = st.cached.get? k.text
  files : ∀ f ∈ k.files, st'.directory.get? f = st.directory.get? f
  apart : st'.Apart k

theorem Keeps.trans {st st' st'' : CertStore} {k : Key} (h : st.Keeps st' k)
    (h' : st'.Keeps st'' k) : st.Keeps st'' k :=
  ⟨h'.cached.trans h.cached, fun f hf => (h'.files f hf).trans (h.files f hf), h'.apart⟩

theorem Apart.keeps_self {st : CertStore} {k : Key} (h : st.Apart k) : st.Keeps st k :=
  ⟨rfl, fun _ _ => rfl, h⟩

theorem Apart.congr {st st' : CertStore} {k : Key} (h : st.Apart k)
    (he : ∀ t, t ≠ k.text → st'.cached.get? t = st.cached.get? t) : st'.Apart k := by
  intro t m hm ht
  rw [he t ht] at hm
  exact h t m hm ht

theorem Apart.certificate {st : CertStore} {k : Key} (h : st.Apart k) (secrets : Lister Secret) :
    (certificate secrets st k).1.Apart k := by
  have hcase := asked secrets st k
  generalize CertStore.certificate secrets st k = x at hcase ⊢
  cases hcase with
  | known m hm => exact h
  | unrendered hm f hr => exact h
  | unwritten hm r hr f hw => exact h
  | written hm r hr hw => exact h.congr fun t ht => Table.get?_insert_ne ht _ _

theorem Apart.keeps_evict {st : CertStore} {k : Key} (h : st.Apart k) {t : String}
    (ht : t ≠ k.text) : st.Keeps (st.evict t).1 k := by
  refine ⟨?_, fun f hf => ?_, fun t' m hm => h t' m ?_⟩
  · rw [evict_cached, if_neg ht.symm]
  · exact evict_get?_of_not_mem st t fun m hm => (h t m hm ht f hf).1
  · rw [evict_cached] at hm
    split at hm
    · cases hm
    · exact hm

theorem Apart.not_mem_of_renderingOf {st : CertStore} {k : Key} (h : st.Apart k) {t : String}
    (ht : t ≠ k.text) {m : Material} (hm : st.cached.get? t = some m) {secrets : Lister Secret}
    {r : Rendering} (hr : renderingOf secrets t = .ok r) {f : String} (hf : f ∈ k.files) :
    f ∉ r.parts.map Part.file := by
  obtain ⟨k', hk', hr'⟩ := renderingOf_eq_ok hr
  intro hmem
  exact (h t m hm ht f hf).2 k' hk' ((rendering_of hr').files_sublist.subset hmem)

theorem Apart.keeps_writeParts {st : CertStore} {k : Key} (h : st.Apart k) {ps : List Part}
    (hps : ∀ f ∈ k.files, f ∉ ps.map Part.file) :
    st.Keeps ⟨(writeParts st.directory ps).1, st.cached⟩ k :=
  ⟨rfl, fun f hf => writeParts_get?_of_not_mem _ _ (hps f hf), h⟩

theorem Apart.keeps_refresh {st : CertStore} {k : Key} (h : st.Apart k)
    (secrets : Lister Secret) {t : String} (ht : t ≠ k.text) :
    st.Keeps (st.refresh secrets t).1 k := by
  have hcase := refreshed secrets st t
  generalize (st.refresh secrets t).1 = st' at hcase ⊢
  cases hcase with
  | unknown hm => exact h.keeps_self
  | gone m hm f hr => exact h.keeps_evict ht
  | same m hm r hr he => exact h.keeps_self
  | unwritten m hm r hr hne f hw =>
    have hparts := h.keeps_writeParts fun f hf => h.not_mem_of_renderingOf ht hm hr hf
    exact hparts.trans (hparts.apart.keeps_evict ht)
  | written m hm r hr hne hw =>
    have hnew : ∀ f ∈ k.files, f ∉ r.parts.map Part.file := fun f hf =>
      h.not_mem_of_renderingOf ht hm hr hf
    refine ⟨Table.get?_insert_ne ht.symm _ _, fun f hf => ?_, fun t' m' hm' => ?_⟩
    · have hold : f ∉ dropped m r.material := fun hmem =>
        (h t m hm ht f hf).1 (mem_files_of_dropped hmem)
      show (removeFiles _ _).1.get? f = _
      rw [removeFiles_get?_of_not_mem _ _ hold, writeParts_get?_of_not_mem _ _ (hnew f hf)]
    · rw [Table.get?_insert] at hm'
      split at hm'
      · rename_i heq
        obtain rfl := Option.some.inj hm'
        intro _ f hf
        rw [Rendering.files_material]
        exact ⟨hnew f hf, heq ▸ (h t m hm ht f hf).2⟩
      · exact h t' m' hm'

theorem Apart.keeps_reconcile {st : CertStore} {k : Key} (h : st.Apart k)
    (secrets : Lister Secret) {t : String} (ht : t ≠ k.text) :
    st.Keeps (st.reconcile secrets t).1 k := by
  rcases reconcile_eq secrets st t with he | he <;> rw [he]
  · exact h.keeps_refresh secrets ht
  · exact h.keeps_evict ht

/-- Visits to other secrets keep this one's part of the store. -/
theorem Apart.keeps_reconcileAll {st : CertStore} {k : Key} (h : st.Apart k)
    (secrets : Lister Secret) {ts : List String} (hts : k.text ∉ ts) :
    st.Keeps (st.reconcileAll secrets ts).1 k := by
  induction ts generalizing st with
  | nil => exact h.keeps_self
  | cons t ts ih =>
    rw [List.mem_cons, not_or] at hts
    have hstep := h.keeps_reconcile secrets (Ne.symm hts.1)
    rw [reconcileAll_cons]
    exact hstep.trans (ih hstep.apart hts.2)

end IngressCache.CertStore
