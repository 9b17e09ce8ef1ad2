import IngressCache.Proofs.Material.Disk
import IngressCache.Proofs.Material.FileNames
import IngressCache.Proofs.Material.Residue

/-!
# Repair

A comparison of all known secrets with the lister, whatever the store was like before it. What is
known afterwards is what the secrets say now, on any disk and whatever fails. A visit to a secret
reads and changes that secret's part of the store and no other, so the order of the visits does not
matter, and there is nothing left to do for a second comparison.
-/

namespace IngressCache

/-- The material is that of the secret that the text names, as the lister has it. -/
def UpToDate (secrets : Lister Secret) (t : String) (m : Material) : Prop :=
  ∃ k s r, Key.Legible k ∧ k.text = t ∧ secrets.find? k = some s ∧ s.render k = .ok r ∧
    m = r.material

namespace StoreOn
open CertStore

variable {δ : Type} {D : Disk δ} {secrets : Lister Secret} {st : StoreOn δ} {t t' : String}
  {m : Material}

/-! ### What is known after a visit -/

theorem evict_cached (st : StoreOn δ) (t t' : String) :
    (st.evict D t).cached.get? t' = if t' = t then none else st.cached.get? t' := by
  unfold evict
  cases hm : st.cached.get? t with
  | none =>
    by_cases he : t' = t
    · simp only [he, hm, if_true]
    · simp only [if_neg he]
  | some m => exact Table.get?_erase _ _ _

theorem refresh_cached_ne (h : t' ≠ t) :
    (st.refresh D secrets t).cached.get? t' = st.cached.get? t' := by
  unfold refresh
  split
  · rfl
  · split
    · rw [evict_cached, if_neg h]
    · split
      · rfl
      · simp only
        split
        · exact Table.get?_insert_ne h _ _
        · rw [evict_cached, if_neg h]

theorem refresh_cached_self (hm : (st.refresh D secrets t).cached.get? t = some m) :
    (∃ m₀, st.cached.get? t = some m₀) ∧ ∃ r, renderingOf secrets t = .ok r ∧ m = r.material := by
  unfold refresh at hm
  split at hm
  · rename_i hnone
    cases hnone.symm.trans hm
  · rename_i m₀ hm₀
    refine ⟨⟨m₀, hm₀⟩, ?_⟩
    split at hm
    · rw [evict_cached, if_pos rfl] at hm
      cases hm
    · rename_i r hr
      refine ⟨r, hr, ?_⟩
      split at hm
      · rename_i hsame
        obtain rfl := Option.some.inj (hm₀.symm.trans hm)
        exact hsame.symm
      · simp only at hm
        split at hm
        · rw [Table.get?_insert_self] at hm
          exact (Option.some.inj hm).symm
        · rw [evict_cached, if_pos rfl] at hm
          cases hm

theorem reconcile_cached_ne (h : t' ≠ t) :
    (st.reconcile D secrets t).cached.get? t' = st.cached.get? t' := by
  unfold reconcile
  split
  · exact refresh_cached_ne h
  · rw [evict_cached, if_neg h]

theorem reconcile_cached_self (hm : (st.reconcile D secrets t).cached.get? t = some m) :
    (∃ m₀, st.cached.get? t = some m₀) ∧ ∃ r, renderingOf secrets t = .ok r ∧ m = r.material := by
  unfold reconcile at hm
  split at hm
  · exact refresh_cached_self hm
  · rw [evict_cached, if_pos rfl] at hm
    cases hm

theorem reconcileAll_concat (ts : List String) :
    st.reconcileAll D secrets (ts ++ [t]) = (st.reconcileAll D secrets ts).reconcile D secrets t :=
  List.foldl_append

/-- What is known after the visits was known before, and is right for the secrets that were
visited. -/
theorem reconcileAll_cached {ts : List String}
    (hm : (st.reconcileAll D secrets ts).cached.get? t = some m) :
    (∃ m₀, st.cached.get? t = some m₀) ∧
      (t ∈ ts → ∃ r, renderingOf secrets t = .ok r ∧ m = r.material) := by
  induction ts using List.reverseRecOn generalizing m with
  | nil => exact ⟨⟨m, hm⟩, fun h => absurd h List.not_mem_nil⟩
  | append_singleton ts t' ih =>
    rw [reconcileAll_concat] at hm
    by_cases ht : t = t'
    · subst ht
      obtain ⟨⟨m₁, hm₁⟩, hr⟩ := reconcile_cached_self hm
      exact ⟨(ih hm₁).1, fun _ => hr⟩
    · rw [reconcile_cached_ne ht] at hm
      refine ⟨(ih hm).1, fun hmem => (ih hm).2 ?_⟩
      exact (List.mem_append.1 hmem).resolve_right fun h => ht (List.mem_singleton.1 h)

/-! ### Nothing left to do -/

/-- All that is known is right. -/
def Current (secrets : Lister Secret) (st : StoreOn δ) : Prop :=
  ∀ t m, st.cached.get? t = some m → UpToDate secrets t m

theorem Current.reconcile (h : st.Current secrets) (t : String) :
    st.reconcile D secrets t = st := by
  unfold StoreOn.reconcile StoreOn.refresh StoreOn.evict
  cases hm : st.cached.get? t with
  | none => simp only [ite_self]
  | some m =>
    obtain ⟨k, s, r, hk, rfl, hs, hr, rfl⟩ := h t m hm
    have hlisted : isListed secrets k.text = true := by
      simp only [isListed, Key.parse_text hk, hs, Option.isSome_some]
    have hrendering : renderingOf secrets k.text = .ok r := by
      rw [renderingOf_text secrets hk]
      exact rendering_eq_ok_iff.2 ⟨s, hs, hr⟩
    simp only [hlisted, hrendering, if_true]

theorem Current.reconcileAll (h : st.Current secrets) (ts : List String) :
    st.reconcileAll D secrets ts = st := by
  induction ts with
  | nil => rfl
  | cons t ts ih =>
    show (st.reconcile D secrets t).reconcileAll D secrets ts = st
    rw [h.reconcile, ih]

end StoreOn

namespace CertStore
open Directory

/-! ### One secret's part of the store -/

/-- The two stores have the same of a secret. -/
structure AgreeAt (k : Key) (st st' : CertStore) : Prop where
  cached : st.cached.get? k.text = st'.cached.get? k.text
  files : ∀ f ∈ k.files, st.directory.get? f = st'.directory.get? f

theorem accepts_congr {d d' : Directory} {f : String} (h : d.get? f = d'.get? f) :
    d.Accepts f ↔ d'.Accepts f := by
  unfold Accepts
  rw [h]

theorem removable_congr {d d' : Directory} {f : String} (h : d.get? f = d'.get? f) :
    d.Removable f ↔ d'.Removable f := by
  rw [removable_iff, removable_iff, h]

theorem writable_congr {d d' : Directory} {ps : List Part}
    (h : ∀ p ∈ ps, d.get? p.file = d'.get? p.file) : writable d ps = writable d' ps := by
  unfold writable
  induction ps with
  | nil => rfl
  | cons p ps ih =>
    rw [List.forall_mem_cons] at h
    rw [List.takeWhile_cons, List.takeWhile_cons, ih h.2, decide_eq_decide.2 (accepts_congr h.1)]

theorem writeParts_eq_none_iff {d : Directory} {ps : List Part} (hn : (ps.map Part.file).Nodup) :
    (writeParts d ps).2 = none ↔ writable d ps = ps := by
  refine ⟨writable_of_none, fun h => (writeParts_of_accepts (fun p hp => ?_) hn).1⟩
  rw [← h] at hp
  simpa using List.mem_takeWhile_imp hp

theorem writeParts_get?_congr {d d' : Directory} {ps : List Part}
    (hn : (ps.map Part.file).Nodup) (h : ∀ p ∈ ps, d.get? p.file = d'.get? p.file) {f : String}
    (hf : d.get? f = d'.get? f) : (writeParts d ps).1.get? f = (writeParts d' ps).1.get? f := by
  have hsame := writable_congr h
  by_cases hw : f ∈ (writable d ps).map Part.file
  · obtain ⟨p, hp, rfl⟩ := List.mem_map.1 hw
    rw [writeParts_get?_of_writable hn hp, writeParts_get?_of_writable hn (hsame ▸ hp)]
  · rw [writeParts_get?_of_not_writable hw, writeParts_get?_of_not_writable (hsame ▸ hw), hf]

theorem removeFiles_get? (d : Directory) (fs : List String) (f : String) :
    (removeFiles d fs).1.get? f = if f ∈ fs ∧ d.Removable f then none else d.get? f := by
  induction fs generalizing d with
  | nil => simp [removeFiles]
  | cons g fs ih =>
    have hkept : ∀ cause, d.remove g = .error cause →
        (f ∈ fs ∧ d.Removable f ↔ f ∈ g :: fs ∧ d.Removable f) := by
      intro cause hcause
      have hne : d.Removable f → f ≠ g := by
        rintro ⟨d', hd'⟩ rfl
        cases hcause.symm.trans hd'
      rw [List.mem_cons]
      exact ⟨fun h => ⟨.inr h.1, h.2⟩, fun h => ⟨h.1.resolve_left (hne h.2), h.2⟩⟩
    unfold removeFiles
    split
    · rename_i d' hr
      simp only [ih, eq_erase_of_remove hr, removable_erase, Table.get?_erase]
      by_cases hf : f = g
      · have hremovable : d.Removable f := hf ▸ ⟨d', hr⟩
        simp [hf, hf ▸ hremovable]
      · simp [hf]
    · rename_i hr
      simp only [ih, hkept _ hr]
    · rename_i cause _ hr
      simp only [ih, hkept _ hr]

theorem removeFiles_get?_congr {d d' : Directory} (fs : List String) {f : String}
    (h : d.get? f = d'.get? f) : (removeFiles d fs).1.get? f = (removeFiles d' fs).1.get? f := by
  simp only [removeFiles_get?, removable_congr h, h]

theorem refresh_eq (secrets : Lister Secret) (st : CertStore) (t : String) :
    (st.refresh secrets t).1 =
      match st.cached.get? t with
      | none => st
      | some m =>
        match renderingOf secrets t with
        | .error _ => (st.evict t).1
        | .ok r =>
          if r.material = m then st
          else
            match (writeParts st.directory r.parts).2 with
            | none =>
              ⟨(removeFiles (writeParts st.directory r.parts).1 (dropped m r.material)).1,
                st.cached.insert t r.material⟩
            | some _ => (evict ⟨(writeParts st.directory r.parts).1, st.cached⟩ t).1 := by
  have hcase := refreshed secrets st t
  generalize (st.refresh secrets t).1 = st' at hcase ⊢
  cases hcase with
  | unknown hm => simp only [hm]
  | gone m hm f hr => simp only [hm, hr]
  | same m hm r hr he => simp only [hm, hr, if_pos he]
  | written m hm r hr hne hw => simp only [hm, hr, if_neg hne, hw]
  | unwritten m hm r hr hne f hw => simp only [hm, hr, if_neg hne, hw]

namespace AgreeAt

variable {secrets : Lister Secret} {k : Key} {st st' : CertStore}

theorem trans {st'' : CertStore} (h : AgreeAt k st st') (h' : AgreeAt k st' st'') :
    AgreeAt k st st'' :=
  ⟨h.cached.trans h'.cached, fun f hf => (h.files f hf).trans (h'.files f hf)⟩

theorem symm (h : AgreeAt k st st') : AgreeAt k st' st :=
  ⟨h.cached.symm, fun f hf => (h.files f hf).symm⟩

theorem evict (h : AgreeAt k st st') :
    AgreeAt k (st.evict k.text).1 (st'.evict k.text).1 := by
  refine ⟨by rw [evict_cached, evict_cached, if_pos rfl, if_pos rfl], fun f hf => ?_⟩
  have hcached := h.cached
  unfold CertStore.evict
  cases hm : st.cached.get? k.text with
  | none =>
    rw [hm] at hcached
    simp only [← hcached]
    exact h.files f hf
  | some m =>
    rw [hm] at hcached
    simp only [← hcached]
    exact removeFiles_get?_congr m.files (h.files f hf)

/-- A refresh reads and changes the secret's own part alone. -/
theorem refresh (h : AgreeAt k st st') (hk : k.Legible) :
    AgreeAt k (st.refresh secrets k.text).1 (st'.refresh secrets k.text).1 := by
  rw [refresh_eq, refresh_eq, ← h.cached, renderingOf_text secrets hk]
  cases hm : st.cached.get? k.text with
  | none => exact h
  | some m =>
    cases hr : rendering secrets k with
    | error f => exact h.evict
    | ok r =>
      have hof := rendering_of hr
      have hparts : ∀ p ∈ r.parts, st.directory.get? p.file = st'.directory.get? p.file :=
        fun p hp => h.files _ (hof.mem_files hp)
      have hfault : (writeParts st.directory r.parts).2 = none ↔
          (writeParts st'.directory r.parts).2 = none := by
        rw [writeParts_eq_none_iff hof.files_nodup, writeParts_eq_none_iff hof.files_nodup,
          writable_congr hparts]
      have hwritten : AgreeAt k ⟨(writeParts st.directory r.parts).1, st.cached⟩
          ⟨(writeParts st'.directory r.parts).1, st'.cached⟩ :=
        ⟨h.cached, fun f hf => writeParts_get?_congr hof.files_nodup hparts (h.files f hf)⟩
      simp only
      split
      · exact h
      · cases hw : (writeParts st.directory r.parts).2 with
        | none =>
          simp only [hfault.1 hw]
          refine ⟨?_, fun f hf => removeFiles_get?_congr _ (hwritten.files f hf)⟩
          rw [Table.get?_insert_self, Table.get?_insert_self]
        | some fault =>
          obtain ⟨fault', hw'⟩ := Option.ne_none_iff_exists'.1 fun hnone => by
            cases hw.symm.trans (hfault.2 hnone)
          simp only [hw']
          exact hwritten.evict

theorem reconcile (h : AgreeAt k st st') (hk : k.Legible) :
    AgreeAt k (st.reconcile secrets k.text).1 (st'.reconcile secrets k.text).1 := by
  unfold CertStore.reconcile
  split
  · exact h.refresh hk
  · exact h.evict

end AgreeAt

/-! ### Visits to others -/

/-- A visit to the secret of that text does not touch the file. -/
def Foreign (st : CertStore) (t f : String) : Prop :=
  ∀ m, st.cached.get? t = some m → f ∉ m.files ∧ ∀ k, Key.parse t = .ok k → f ∉ k.files

theorem Foreign.congr {st st' : CertStore} {t f : String} (h : st.Foreign t f)
    (he : st'.cached.get? t = st.cached.get? t) : st'.Foreign t f := by
  intro m hm
  exact h m (he.symm.trans hm)

theorem Foreign.reconcile {st : CertStore} {t f : String} (h : st.Foreign t f)
    (secrets : Lister Secret) :
    (st.reconcile secrets t).1.directory.get? f = st.directory.get? f := by
  have hevict : ∀ {st : CertStore}, st.Foreign t f →
      (st.evict t).1.directory.get? f = st.directory.get? f :=
    fun h => evict_get?_of_not_mem _ t fun m hm => (h m hm).1
  rcases reconcile_eq secrets st t with he | he <;> rw [he]
  · have hcase := refreshed secrets st t
    generalize (st.refresh secrets t).1 = st' at hcase ⊢
    have hparts : ∀ {m r}, st.cached.get? t = some m → renderingOf secrets t = .ok r →
        (writeParts st.directory r.parts).1.get? f = st.directory.get? f := by
      intro m r hm hr
      obtain ⟨k, hk, hr⟩ := renderingOf_eq_ok hr
      refine writeParts_get?_of_not_mem _ _ fun hmem => (h m hm).2 k hk ?_
      exact (rendering_of hr).files_sublist.subset hmem
    cases hcase with
    | unknown hm => rfl
    | gone m hm fault hr => exact hevict h
    | same m hm r hr he => rfl
    | written m hm r hr hne hw =>
      have hold : f ∉ dropped m r.material := fun hmem => (h m hm).1 (mem_files_of_dropped hmem)
      exact (removeFiles_get?_of_not_mem _ _ hold).trans (hparts hm hr)
    | unwritten m hm r hr hne fault hw =>
      have hnext : Foreign ⟨(writeParts st.directory r.parts).1, st.cached⟩ t f := h
      exact (hevict hnext).trans (hparts hm hr)
  · exact hevict h

theorem reconcileAll_get?_of_foreign (secrets : Lister Secret) {st : CertStore}
    {ts : List String} (hn : ts.Nodup) {f : String} (hf : ∀ t ∈ ts, st.Foreign t f) :
    (st.reconcileAll secrets ts).1.directory.get? f = st.directory.get? f := by
  induction ts generalizing st with
  | nil => rfl
  | cons t ts ih =>
    rw [List.nodup_cons] at hn
    rw [List.forall_mem_cons] at hf
    rw [reconcileAll_cons, ih hn.2 fun t' ht' => ?_]
    · exact hf.1.reconcile secrets
    · have hne : t' ≠ t := fun he => hn.1 (he ▸ ht')
      exact (hf.2 t' ht').congr (reconcile_cached_of_ne secrets st hne)

/-- Each entry names files of its own secret, whose parts can be told apart. -/
def NamesOwn (st : CertStore) : Prop :=
  ∀ t m, st.cached.get? t = some m → ∃ k, Key.Simple k ∧ k.text = t ∧ ∀ f ∈ m.files, f ∈ k.files

theorem NamesOwn.foreign {st : CertStore} (h : st.NamesOwn) {t f : String}
    (hf : ∀ k, Key.Simple k → k.text = t → f ∉ k.files) : st.Foreign t f := by
  intro m hm
  obtain ⟨k, hk, rfl, hown⟩ := h t m hm
  refine ⟨fun hmem => hf k hk rfl (hown f hmem), fun k' hk' => ?_⟩
  obtain rfl := Except.ok.inj (hk'.symm.trans (Key.parse_text hk.toLegible))
  exact hf k' hk rfl

/-- Among all visits it is the one to a secret that makes its part of the store. -/
theorem NamesOwn.agreeAt_reconcileAll {st : CertStore} (h : st.NamesOwn)
    (secrets : Lister Secret) {k : Key} (hk : k.Simple) {ts : List String} (hn : ts.Nodup)
    (ht : k.text ∈ ts) :
    AgreeAt k (st.reconcileAll secrets ts).1 (st.reconcile secrets k.text).1 := by
  obtain ⟨before, after, rfl⟩ := List.append_of_mem ht
  rw [List.nodup_append, List.nodup_cons] at hn
  obtain ⟨hbefore, ⟨hnot, hafter⟩, hdisjoint⟩ := hn
  have hothers : ∀ t, t ≠ k.text → ∀ f ∈ k.files, st.Foreign t f := by
    intro t hne f hf
    refine h.foreign fun k' hk' ht' hf' => hne ?_
    rw [← ht', Key.eq_of_mem_files hk' hk hf' hf]
  have hnotBefore : k.text ∉ before := fun hmem =>
    hdisjoint _ hmem _ List.mem_cons_self rfl
  rw [reconcileAll_append, reconcileAll_cons]
  have hreached : AgreeAt k (st.reconcileAll secrets before).1 st := by
    refine ⟨reconcileAll_cached_of_not_mem secrets st hnotBefore, fun f hf => ?_⟩
    refine reconcileAll_get?_of_foreign secrets hbefore fun t ht => ?_
    exact hothers t (fun he => hnotBefore (he ▸ ht)) f hf
  refine AgreeAt.trans ⟨reconcileAll_cached_of_not_mem secrets _ hnot, fun f hf => ?_⟩
    (hreached.reconcile hk.toLegible)
  refine reconcileAll_get?_of_foreign secrets hafter fun t ht => ?_
  have hne : t ≠ k.text := fun he => hnot (he ▸ ht)
  refine (hothers t hne f hf).congr ?_
  rw [reconcile_cached_of_ne secrets _ hne]
  refine reconcileAll_cached_of_not_mem secrets st fun hmem => ?_
  exact hdisjoint _ hmem _ (List.mem_cons_of_mem _ ht) rfl

/-- The two stores have the same, in whatever order they have it. -/
structure Same (st st' : CertStore) : Prop where
  cached : ∀ t, st.cached.get? t = st'.cached.get? t
  directory : ∀ f, st.directory.get? f = st'.directory.get? f

theorem NamesOwn.same_of_perm {st : CertStore} (h : st.NamesOwn) (secrets : Lister Secret)
    {ts us : List String} (hts : ts.Perm st.cached.keys) (hus : us.Perm st.cached.keys) :
    Same (st.reconcileAll secrets ts).1 (st.reconcileAll secrets us).1 := by
  have hkeys : st.cached.keys.Nodup := st.cached.nodup
  have hagree : ∀ k : Key, k.Simple → k.text ∈ st.cached.keys →
      AgreeAt k (st.reconcileAll secrets ts).1 (st.reconcileAll secrets us).1 := by
    intro k hk ht
    have hleft := h.agreeAt_reconcileAll secrets hk (hts.nodup_iff.2 hkeys) (hts.mem_iff.2 ht)
    have hright := h.agreeAt_reconcileAll secrets hk (hus.nodup_iff.2 hkeys) (hus.mem_iff.2 ht)
    exact hleft.trans hright.symm
  refine ⟨fun t => ?_, fun f => ?_⟩
  · by_cases ht : t ∈ st.cached.keys
    · obtain ⟨m, hm⟩ := Table.mem_keys.1 ht
      obtain ⟨k, hk, rfl, -⟩ := h t m hm
      exact (hagree k hk ht).cached
    · rw [reconcileAll_cached_of_not_mem secrets st fun hmem => ht (hts.mem_iff.1 hmem),
        reconcileAll_cached_of_not_mem secrets st fun hmem => ht (hus.mem_iff.1 hmem)]
  · by_cases hf : ∃ k : Key, k.Simple ∧ k.text ∈ st.cached.keys ∧ f ∈ k.files
    · obtain ⟨k, hk, ht, hf⟩ := hf
      exact (hagree k hk ht).files f hf
    · have hforeign : ∀ t ∈ st.cached.keys, st.Foreign t f := by
        intro t ht
        refine h.foreign fun k hk he hmem => hf ⟨k, hk, he ▸ ht, hmem⟩
      rw [reconcileAll_get?_of_foreign secrets (hts.nodup_iff.2 hkeys) fun t ht =>
          hforeign t (hts.mem_iff.1 ht),
        reconcileAll_get?_of_foreign secrets (hus.nodup_iff.2 hkeys) fun t ht =>
          hforeign t (hus.mem_iff.1 ht)]

/-- A comparison of all known secrets with the lister, in any order: what is known is what was known
before and is right now, and a second one changes nothing, whatever the disk does. On a disk that
holds a directory it is the comparison of the store of that directory, and where names have no joint
the order does not matter. -/
theorem resync_repairs {δ : Type} (D : Disk δ) (secrets : Lister Secret) (st : StoreOn δ)
    (hkeys : ∀ t ∈ st.cached.keys, ∃ k, Key.Legible k ∧ k.text = t) {ts : List String}
    (hts : ts.Perm st.cached.keys) :
    let st' := st.reconcileAll D secrets ts
    (∀ t m, st'.cached.get? t = some m → t ∈ st.cached.keys ∧ UpToDate secrets t m) ∧
      (∀ us, st'.reconcileAll D secrets us = st') ∧
      ∀ view, D.Holds view →
        ((st.view view).reconcileAll secrets ts).1 = st'.view view ∧
          (∀ us, ((st'.view view).reconcileAll secrets us).1 = st'.view view) ∧
          ((st.view view).NamesOwn → ∀ us, us.Perm st.cached.keys →
            Same (st'.view view) ((st.view view).reconcileAll secrets us).1) := by
  intro st'
  have hknown : ∀ t m, st'.cached.get? t = some m →
      t ∈ st.cached.keys ∧ UpToDate secrets t m := by
    intro t m hm
    obtain ⟨hbefore, hvisited⟩ := StoreOn.reconcileAll_cached hm
    have ht : t ∈ st.cached.keys := Table.mem_keys.2 hbefore
    obtain ⟨k, hk, rfl⟩ := hkeys t ht
    obtain ⟨r, hr, rfl⟩ := hvisited (hts.mem_iff.2 ht)
    rw [renderingOf_text secrets hk] at hr
    obtain ⟨s, hs, hr⟩ := rendering_eq_ok_iff.1 hr
    exact ⟨ht, k, s, r, hk, rfl, hs, hr, rfl⟩
  have hagain : ∀ us, st'.reconcileAll D secrets us = st' :=
    StoreOn.Current.reconcileAll fun t m hm => (hknown t m hm).2
  refine ⟨hknown, hagain, fun view hview => ?_⟩
  have hdirectory := hview.reconcileAll_eq secrets st ts
  refine ⟨hdirectory, fun us => ?_, fun hown us hus => ?_⟩
  · rw [hview.reconcileAll_eq, hagain]
  · rw [← hdirectory]
    exact hown.same_of_perm secrets hts hus

/-- Of one secret the store knows a version that never was, and the other is gone. -/
theorem resync_repairs_of_stale :
    let j : Key := ⟨"web", "old"⟩
    let k : Key := ⟨"web", "new"⟩
    let secrets : Lister Secret := Lister.empty.step (.apply (.ofAuthorities k [67] [68]))
    let st : StoreOn Directory :=
      ⟨(Table.empty.insert k.bundleFile (.file [1] privateMode)).insert j.authoritiesFile
          (.file [2] privateMode),
        (Table.empty.insert k.text ⟨some k.bundleFile, "", none, none, none⟩).insert j.text
          ⟨none, "", none, some j.authoritiesFile, none⟩⟩
    let st' := st.reconcileAll .directory secrets [k.text, j.text]
    st'.cached.keys = [k.text] ∧
      (∀ t m, st'.cached.get? t = some m → UpToDate secrets t m) ∧
      (∀ us, ((st'.view id).reconcileAll secrets us).1 = st'.view id) ∧
      Same (st'.view id) ((st.view id).reconcileAll secrets [j.text, k.text]).1 := by
  intro j k secrets st st'
  have hcached : st.cached.keys = [j.text, k.text] := by decide
  have hkeys : ∀ t ∈ st.cached.keys, ∃ k, Key.Legible k ∧ k.text = t := by
    rw [hcached, List.forall_mem_cons, List.forall_mem_singleton]
    exact ⟨⟨j, by decide, rfl⟩, ⟨k, by decide, rfl⟩⟩
  have horder : [k.text, j.text].Perm st.cached.keys := hcached ▸ List.Perm.swap _ _ _
  have hown : (st.view id).NamesOwn := by
    intro t m hm
    have ht : t ∈ st.cached.keys := Table.mem_keys.2 ⟨m, hm⟩
    rw [hcached] at ht
    rcases List.mem_cons.1 ht with rfl | ht
    · have hm' : st.cached.get? j.text = some m := hm
      obtain rfl : m = ⟨none, "", none, some j.authoritiesFile, none⟩ := by
        have hj : st.cached.get? j.text = some ⟨none, "", none, some j.authoritiesFile, none⟩ := by
          decide
        exact Option.some.inj (hm'.symm.trans hj)
      exact ⟨j, by decide, rfl, by decide⟩
    · obtain rfl := List.mem_singleton.1 ht
      have hm' : st.cached.get? k.text = some m := hm
      obtain rfl : m = ⟨some k.bundleFile, "", none, none, none⟩ := by
        have hk : st.cached.get? k.text = some ⟨some k.bundleFile, "", none, none, none⟩ := by
          decide
        exact Option.some.inj (hm'.symm.trans hk)
      exact ⟨k, by decide, rfl, by decide⟩
  obtain ⟨hknown, -, hview⟩ := resync_repairs .directory secrets st hkeys horder
  obtain ⟨-, hagain, hsame⟩ := hview id Disk.holds_directory
  refine ⟨by decide +kernel, fun t m hm => (hknown t m hm).2, hagain, ?_⟩
  exact hsame hown _ (hcached ▸ List.Perm.refl _)

end CertStore

end IngressCache
