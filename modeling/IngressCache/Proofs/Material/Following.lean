import IngressCache.Material.SecretStore
import IngressCache.Proofs.Material.Files
import IngressCache.Proofs.Object.Listed

/-!
# The store follows the lister

What each operation of the store does to the entry of a secret, and that it leaves the entries of
all other secrets alone. Main statement: an entry that was refreshed, evicted or compared with
the lister is gone or says what the secret's rendering says now.
-/

namespace IngressCache.CertStore

/-- An entry of the table that is there says what the rendering of its secret says now. -/
def FreshAt (secrets : Lister Secret) (st : CertStore) (t : String) : Prop :=
  ∀ m, st.cached.get? t = some m →
    ∃ k r, k.text = t ∧ rendering secrets k = .ok r ∧ m = r.material

def Fresh (secrets : Lister Secret) (st : CertStore) : Prop :=
  ∀ t, st.FreshAt secrets t

theorem FreshAt.congr {secrets : Lister Secret} {st st' : CertStore} {t : String}
    (h : st.FreshAt secrets t) (he : st'.cached.get? t = st.cached.get? t) :
    st'.FreshAt secrets t := by
  intro m hm
  rw [he] at hm
  exact h m hm

theorem freshAt_of_none {secrets : Lister Secret} {st : CertStore} {t : String}
    (h : st.cached.get? t = none) : st.FreshAt secrets t := by
  intro m hm
  rw [h] at hm
  cases hm

/-! ### Renderings -/

theorem rendering_eq_ok_iff {secrets : Lister Secret} {k : Key} {r : Rendering} :
    rendering secrets k = .ok r ↔ ∃ s, secrets.find? k = some s ∧ s.render k = .ok r := by
  unfold rendering
  cases secrets.find? k with
  | none => simp
  | some s => simp

theorem rendering_of {secrets : Lister Secret} {k : Key} {r : Rendering}
    (h : rendering secrets k = .ok r) : r.Of k := by
  obtain ⟨s, -, hs⟩ := rendering_eq_ok_iff.1 h
  exact Secret.render_of hs

theorem rendering_congr {secrets secrets' : Lister Secret} {k : Key}
    (h : secrets'.find? k = secrets.find? k) : rendering secrets' k = rendering secrets k := by
  unfold rendering
  rw [h]

theorem qualified_of_rendering {secrets : Lister Secret} (h : secrets.Indexed) {k : Key}
    {r : Rendering} (hr : rendering secrets k = .ok r) : k.Qualified := by
  obtain ⟨s, hs, -⟩ := rendering_eq_ok_iff.1 hr
  exact Lister.qualified_of_find? h hs

def renderingOf (secrets : Lister Secret) (t : String) : Except Failure Rendering :=
  (Key.require t).bind (rendering secrets)

theorem renderingOf_text (secrets : Lister Secret) {k : Key} (h : k.Legible) :
    renderingOf secrets k.text = rendering secrets k := by
  unfold renderingOf
  rw [Key.require_text h]
  rfl

theorem renderingOf_eq_ok {secrets : Lister Secret} {t : String} {r : Rendering}
    (h : renderingOf secrets t = .ok r) :
    ∃ k, Key.parse t = .ok k ∧ rendering secrets k = .ok r := by
  unfold renderingOf Key.require at h
  cases hk : Key.parse t with
  | error f =>
    rw [hk] at h
    cases h
  | ok k =>
    rw [hk] at h
    exact ⟨k, rfl, h⟩

theorem rendering_of_renderingOf {secrets : Lister Secret} (hi : secrets.Indexed) {t : String}
    {r : Rendering} (h : renderingOf secrets t = .ok r) :
    ∃ k, k.text = t ∧ rendering secrets k = .ok r := by
  obtain ⟨k, hk, hr⟩ := renderingOf_eq_ok h
  exact ⟨k, Key.text_of_parse hk (qualified_of_rendering hi hr).ns_ne, hr⟩

/-- An entry of the table that is there comes from the secret that its text names now. -/
def CurrentAt (secrets : Lister Secret) (st : CertStore) (t : String) : Prop :=
  ∀ m, st.cached.get? t = some m → ∃ r, renderingOf secrets t = .ok r ∧ m = r.material

theorem CurrentAt.congr {secrets : Lister Secret} {st st' : CertStore} {t : String}
    (h : st.CurrentAt secrets t) (he : st'.cached.get? t = st.cached.get? t) :
    st'.CurrentAt secrets t := by
  intro m hm
  rw [he] at hm
  exact h m hm

theorem currentAt_of_none {secrets : Lister Secret} {st : CertStore} {t : String}
    (h : st.cached.get? t = none) : st.CurrentAt secrets t := by
  intro m hm
  rw [h] at hm
  cases hm

theorem CurrentAt.freshAt {secrets : Lister Secret} (hi : secrets.Indexed) {st : CertStore}
    {t : String} (h : st.CurrentAt secrets t) : st.FreshAt secrets t := by
  intro m hm
  obtain ⟨r, hr, rfl⟩ := h m hm
  obtain ⟨k, hk, hr⟩ := rendering_of_renderingOf hi hr
  exact ⟨k, r, hk, hr, rfl⟩

/-! ### Eviction -/

theorem evict_cached (st : CertStore) (t t' : String) :
    (st.evict t).1.cached.get? t' = if t' = t then none else st.cached.get? t' := by
  unfold evict
  cases hm : st.cached.get? t with
  | none =>
    show st.cached.get? t' = _
    by_cases he : t' = t
    · rw [if_pos he, he, hm]
    · rw [if_neg he]
  | some m => exact Table.get?_erase _ _ _

theorem Lasting.evict {P : Directory → Prop} (hP : Lasting P) {st : CertStore}
    (h : P st.directory) (t : String) : P (st.evict t).1.directory := by
  unfold CertStore.evict
  split
  · exact h
  · exact hP.removeFiles h _

theorem evict_accepts {st : CertStore} {f : String} (h : st.directory.Accepts f) (t : String) :
    (st.evict t).1.directory.Accepts f :=
  (lasting_accepts f).evict h t

theorem evict_get?_of_not_mem (st : CertStore) (t : String) {f : String}
    (hf : ∀ m, st.cached.get? t = some m → f ∉ m.files) :
    (st.evict t).1.directory.get? f = st.directory.get? f := by
  unfold evict
  split
  · rfl
  · rename_i m hm
    exact removeFiles_get?_of_not_mem _ _ (hf m hm)

/-! ### Writing a rendering -/

theorem writeRendering_of_none {st : CertStore} {r : Rendering}
    (h : (writeParts st.directory r.parts).2 = none) :
    st.writeRendering r =
      (⟨(writeParts st.directory r.parts).1, st.cached⟩, .ok r.material) := by
  unfold writeRendering
  generalize writeParts st.directory r.parts = x at h ⊢
  obtain ⟨d, _ | f⟩ := x
  · rfl
  · cases h

theorem writeRendering_of_some {st : CertStore} {r : Rendering} {f : IoFault}
    (h : (writeParts st.directory r.parts).2 = some f) :
    st.writeRendering r =
      (⟨(writeParts st.directory r.parts).1, st.cached⟩, .error (.io f)) := by
  unfold writeRendering
  generalize writeParts st.directory r.parts = x at h ⊢
  obtain ⟨d, _ | g⟩ := x
  · cases h
  · obtain rfl := Option.some.inj h
    rfl

/-! ### Refreshing -/

/-- The ways in which a refresh can go. -/
inductive Refreshed (secrets : Lister Secret) (st : CertStore) (t : String) : CertStore → Prop
  | unknown (hm : st.cached.get? t = none) : Refreshed secrets st t st
  /-- The secret cannot be rendered. -/
  | gone (m : Material) (hm : st.cached.get? t = some m) (f : Failure)
      (hr : renderingOf secrets t = .error f) : Refreshed secrets st t (st.evict t).1
  /-- All that is known of the secret stays. -/
  | same (m : Material) (hm : st.cached.get? t = some m) (r : Rendering)
      (hr : renderingOf secrets t = .ok r) (he : r.material = m) : Refreshed secrets st t st
  | written (m : Material) (hm : st.cached.get? t = some m) (r : Rendering)
      (hr : renderingOf secrets t = .ok r) (hne : r.material ≠ m)
      (hw : (writeParts st.directory r.parts).2 = none) :
      Refreshed secrets st t
        ⟨(removeFiles (writeParts st.directory r.parts).1 (dropped m r.material)).1,
          st.cached.insert t r.material⟩
  /-- A file cannot be written. -/
  | unwritten (m : Material) (hm : st.cached.get? t = some m) (r : Rendering)
      (hr : renderingOf secrets t = .ok r) (hne : r.material ≠ m) (f : IoFault)
      (hw : (writeParts st.directory r.parts).2 = some f) :
      Refreshed secrets st t (evict ⟨(writeParts st.directory r.parts).1, st.cached⟩ t).1

theorem refreshed (secrets : Lister Secret) (st : CertStore) (t : String) :
    Refreshed secrets st t (st.refresh secrets t).1 := by
  unfold refresh rerender
  cases hm : st.cached.get? t with
  | none => exact .unknown hm
  | some m =>
    simp only
    cases hr : renderingOf secrets t with
    | error f =>
      have hb : (Key.require t).bind (rendering secrets) = .error f := hr
      rw [hb]
      exact .gone m hm f hr
    | ok r =>
      have hb : (Key.require t).bind (rendering secrets) = .ok r := hr
      rw [hb]
      by_cases he : r.material = m
      · simp only [if_pos he]
        exact .same m hm r hr he
      · simp only [if_neg he]
        cases hw : (writeParts st.directory r.parts).2 with
        | none =>
          rw [writeRendering_of_none hw]
          exact .written m hm r hr he hw
        | some f =>
          rw [writeRendering_of_some hw]
          exact .unwritten m hm r hr he f hw

theorem refresh_cached_of_ne (secrets : Lister Secret) (st : CertStore) {t t' : String}
    (h : t' ≠ t) : (st.refresh secrets t).1.cached.get? t' = st.cached.get? t' := by
  have hcase := refreshed secrets st t
  generalize (st.refresh secrets t).1 = st' at hcase ⊢
  cases hcase with
  | unknown hm => rfl
  | gone m hm f hr => rw [evict_cached, if_neg h]
  | same m hm r hr he => rfl
  | written m hm r hr hne hw => exact Table.get?_insert_ne h _ _
  | unwritten m hm r hr hne f hw => rw [evict_cached, if_neg h]

theorem refresh_currentAt (secrets : Lister Secret) (st : CertStore) (t : String) :
    (st.refresh secrets t).1.CurrentAt secrets t := by
  have hcase := refreshed secrets st t
  generalize (st.refresh secrets t).1 = st' at hcase ⊢
  cases hcase with
  | unknown hm => exact currentAt_of_none hm
  | gone m hm f hr => exact currentAt_of_none (by rw [evict_cached, if_pos rfl])
  | same m hm r hr he =>
    intro m' hm'
    rw [hm] at hm'
    exact ⟨r, hr, (Option.some.inj hm').symm.trans he.symm⟩
  | written m hm r hr hne hw =>
    intro m' hm'
    have hm' : some r.material = some m' := (Table.get?_insert_self _ _ _).symm.trans hm'
    exact ⟨r, hr, (Option.some.inj hm').symm⟩
  | unwritten m hm r hr hne f hw => exact currentAt_of_none (by rw [evict_cached, if_pos rfl])

theorem Lasting.refresh {P : Directory → Prop} (hP : Lasting P) (secrets : Lister Secret)
    {st : CertStore} (h : P st.directory) (t : String) :
    P (st.refresh secrets t).1.directory := by
  have hcase := refreshed secrets st t
  generalize (st.refresh secrets t).1 = st' at hcase ⊢
  cases hcase with
  | unknown hm => exact h
  | gone m hm f hr => exact hP.evict h t
  | same m hm r hr he => exact h
  | written m hm r hr hne hw => exact hP.removeFiles (hP.writeParts h _) _
  | unwritten m hm r hr hne f hw => exact hP.evict (hP.writeParts h _) t

theorem refresh_accepts (secrets : Lister Secret) {st : CertStore} {f : String}
    (h : st.directory.Accepts f) (t : String) :
    (st.refresh secrets t).1.directory.Accepts f :=
  (lasting_accepts f).refresh secrets h t

/-! ### Comparing with the lister -/

theorem reconcile_eq (secrets : Lister Secret) (st : CertStore) (t : String) :
    st.reconcile secrets t = st.refresh secrets t ∨ st.reconcile secrets t = st.evict t := by
  unfold reconcile
  split
  · exact .inl rfl
  · exact .inr rfl

theorem reconcile_cached_of_ne (secrets : Lister Secret) (st : CertStore) {t t' : String}
    (h : t' ≠ t) : (st.reconcile secrets t).1.cached.get? t' = st.cached.get? t' := by
  rcases reconcile_eq secrets st t with he | he <;> rw [he]
  · exact refresh_cached_of_ne secrets st h
  · rw [evict_cached, if_neg h]

theorem reconcile_currentAt (secrets : Lister Secret) (st : CertStore) (t : String) :
    (st.reconcile secrets t).1.CurrentAt secrets t := by
  rcases reconcile_eq secrets st t with he | he <;> rw [he]
  · exact refresh_currentAt secrets st t
  · exact currentAt_of_none (by rw [evict_cached, if_pos rfl])

theorem Lasting.reconcile {P : Directory → Prop} (hP : Lasting P) (secrets : Lister Secret)
    {st : CertStore} (h : P st.directory) (t : String) :
    P (st.reconcile secrets t).1.directory := by
  rcases reconcile_eq secrets st t with he | he <;> rw [he]
  · exact hP.refresh secrets h t
  · exact hP.evict h t

theorem reconcile_accepts (secrets : Lister Secret) {st : CertStore} {f : String}
    (h : st.directory.Accepts f) (t : String) :
    (st.reconcile secrets t).1.directory.Accepts f :=
  (lasting_accepts f).reconcile secrets h t

theorem reconcileAll_cons (secrets : Lister Secret) (st : CertStore) (t : String)
    (ts : List String) :
    (st.reconcileAll secrets (t :: ts)).1 =
      ((st.reconcile secrets t).1.reconcileAll secrets ts).1 := rfl

theorem reconcileAll_append (secrets : Lister Secret) (st : CertStore) (ts us : List String) :
    (st.reconcileAll secrets (ts ++ us)).1 =
      ((st.reconcileAll secrets ts).1.reconcileAll secrets us).1 := by
  induction ts generalizing st with
  | nil => rfl
  | cons t ts ih =>
    rw [List.cons_append, reconcileAll_cons, reconcileAll_cons]
    exact ih _

theorem reconcileAll_cached_of_not_mem (secrets : Lister Secret) (st : CertStore)
    {ts : List String} {t : String} (h : t ∉ ts) :
    (st.reconcileAll secrets ts).1.cached.get? t = st.cached.get? t := by
  induction ts generalizing st with
  | nil => rfl
  | cons a ts ih =>
    simp only [List.mem_cons, not_or] at h
    rw [reconcileAll_cons, ih _ h.2, reconcile_cached_of_ne secrets st h.1]

/-- Whatever the order of the visits, each visited entry is settled in the end. -/
theorem reconcileAll_currentAt (secrets : Lister Secret) (st : CertStore) {ts : List String}
    {t : String} (h : t ∈ ts) : (st.reconcileAll secrets ts).1.CurrentAt secrets t := by
  induction ts generalizing st with
  | nil => cases h
  | cons a ts ih =>
    rw [reconcileAll_cons]
    by_cases hts : t ∈ ts
    · exact ih _ hts
    · have ha : t = a := (List.mem_cons.1 h).resolve_right hts
      subst ha
      exact (reconcile_currentAt secrets st t).congr
        (reconcileAll_cached_of_not_mem secrets _ hts)

theorem Lasting.reconcileAll {P : Directory → Prop} (hP : Lasting P) (secrets : Lister Secret)
    {st : CertStore} (h : P st.directory) (ts : List String) :
    P (st.reconcileAll secrets ts).1.directory := by
  induction ts generalizing st with
  | nil => exact h
  | cons t ts ih =>
    rw [reconcileAll_cons]
    exact ih (hP.reconcile secrets h t)

theorem reconcileAll_accepts (secrets : Lister Secret) {st : CertStore} {f : String}
    (h : st.directory.Accepts f) (ts : List String) :
    (st.reconcileAll secrets ts).1.directory.Accepts f :=
  (lasting_accepts f).reconcileAll secrets h ts

theorem resync_currentAt (secrets : Lister Secret) (st : CertStore) (t : String) :
    (st.resync secrets).1.CurrentAt secrets t := by
  by_cases ht : t ∈ st.cached.keys
  · exact reconcileAll_currentAt secrets st ht
  · have hnone : st.cached.get? t = none := by
      cases hm : st.cached.get? t with
      | none => rfl
      | some m => exact absurd (Table.mem_keys.2 ⟨m, hm⟩) ht
    refine currentAt_of_none ?_
    rw [resync, reconcileAll_cached_of_not_mem secrets st ht]
    exact hnone

/-! ### Calls that events make -/

theorem Lasting.follow {P : Directory → Prop} (hP : Lasting P) (secrets : Lister Secret)
    {st : CertStore} (h : P st.directory) (call : StoreCall) :
    P (st.follow secrets call).1.directory := by
  cases call with
  | update t => exact hP.refresh secrets h t
  | delete t => exact hP.evict h t
  | resync => exact hP.reconcileAll secrets h _

theorem follow_accepts (secrets : Lister Secret) {st : CertStore} {f : String}
    (h : st.directory.Accepts f) (call : StoreCall) :
    (st.follow secrets call).1.directory.Accepts f :=
  (lasting_accepts f).follow secrets h call

def settles : StoreCall → String → Prop
  | .update t, t' | .delete t, t' => t' = t
  | .resync, _ => True

theorem follow_currentAt (secrets : Lister Secret) (st : CertStore) {call : StoreCall}
    {t : String} (h : settles call t) : (st.follow secrets call).1.CurrentAt secrets t := by
  cases call with
  | update t' =>
    obtain rfl : t = t' := h
    exact refresh_currentAt secrets st t
  | delete t' =>
    obtain rfl : t = t' := h
    exact currentAt_of_none (by rw [follow, evict_cached, if_pos rfl])
  | resync => exact resync_currentAt secrets st t

theorem follow_cached_of_not_settles (secrets : Lister Secret) (st : CertStore)
    {call : StoreCall} {t : String} (h : ¬settles call t) :
    (st.follow secrets call).1.cached.get? t = st.cached.get? t := by
  cases call with
  | update t' => exact refresh_cached_of_ne secrets st h
  | delete t' => exact (evict_cached st t' t).trans (if_neg h)
  | resync => exact absurd trivial h

theorem follow_fresh {secrets : Lister Secret} (hi : secrets.Indexed) {st : CertStore}
    (call : StoreCall) (h : ∀ t, ¬settles call t → st.FreshAt secrets t) :
    (st.follow secrets call).1.Fresh secrets := by
  intro t
  by_cases hs : settles call t
  · exact (follow_currentAt secrets st hs).freshAt hi
  · exact (h t hs).congr (follow_cached_of_not_settles secrets st hs)

/-! ### Asking for material -/

/-- The ways in which a question for material can go. -/
inductive Asked (secrets : Lister Secret) (st : CertStore) (k : Key) :
    CertStore × Except Failure Material → Prop
  | known (m : Material) (hm : st.cached.get? k.text = some m) : Asked secrets st k (st, .ok m)
  | unrendered (hm : st.cached.get? k.text = none) (f : Failure)
      (hr : rendering secrets k = .error f) : Asked secrets st k (st, .error f)
  | written (hm : st.cached.get? k.text = none) (r : Rendering)
      (hr : rendering secrets k = .ok r) (hw : (writeParts st.directory r.parts).2 = none) :
      Asked secrets st k
        (⟨(writeParts st.directory r.parts).1, st.cached.insert k.text r.material⟩,
          .ok r.material)
  | unwritten (hm : st.cached.get? k.text = none) (r : Rendering)
      (hr : rendering secrets k = .ok r) (f : IoFault)
      (hw : (writeParts st.directory r.parts).2 = some f) :
      Asked secrets st k (⟨(writeParts st.directory r.parts).1, st.cached⟩, .error (.io f))

theorem asked (secrets : Lister Secret) (st : CertStore) (k : Key) :
    Asked secrets st k (certificate secrets st k) := by
  unfold certificate
  cases hm : st.cached.get? k.text with
  | some m => exact .known m hm
  | none =>
    simp only
    cases hr : rendering secrets k with
    | error f => exact .unrendered hm f hr
    | ok r =>
      simp only
      cases hw : (writeParts st.directory r.parts).2 with
      | none =>
        rw [writeRendering_of_none hw]
        exact .written hm r hr hw
      | some f =>
        rw [writeRendering_of_some hw]
        exact .unwritten hm r hr f hw

theorem certificate_fresh {secrets : Lister Secret} {st : CertStore} (h : st.Fresh secrets)
    (k : Key) : (certificate secrets st k).1.Fresh secrets := by
  intro t
  have hcase := asked secrets st k
  generalize certificate secrets st k = x at hcase ⊢
  cases hcase with
  | known m hm => exact h t
  | unrendered hm f hr => exact h t
  | unwritten hm r hr f hw => exact h t
  | written hm r hr hw =>
    intro m' hm'
    rw [Table.get?_insert] at hm'
    split at hm'
    · rename_i ht
      exact ⟨k, r, ht.symm, hr, (Option.some.inj hm').symm⟩
    · exact h t m' hm'

theorem Lasting.certificate {P : Directory → Prop} (hP : Lasting P) (secrets : Lister Secret)
    {st : CertStore} (h : P st.directory) (k : Key) :
    P (certificate secrets st k).1.directory := by
  have hcase := asked secrets st k
  generalize CertStore.certificate secrets st k = x at hcase ⊢
  cases hcase with
  | known m hm => exact h
  | unrendered hm f hr => exact h
  | unwritten hm r hr f hw => exact hP.writeParts h _
  | written hm r hr hw => exact hP.writeParts h _

theorem certificate_accepts (secrets : Lister Secret) {st : CertStore} {f : String}
    (h : st.directory.Accepts f) (k : Key) :
    (certificate secrets st k).1.directory.Accepts f :=
  (lasting_accepts f).certificate secrets h k

/-- A store that knows nothing gives what the rendering says, if it can write the files. -/
theorem certificate_of_unknown (secrets : Lister Secret) {st : CertStore} {k : Key}
    (hm : st.cached.get? k.text = none) (hd : ∀ f ∈ k.files, st.directory.Accepts f) :
    (certificate secrets st k).2 = (rendering secrets k).map Rendering.material := by
  have hwritten : ∀ r, rendering secrets k = .ok r →
      (writeParts st.directory r.parts).2 = none := fun r hr =>
    (writeParts_of_accepts (fun p hp => hd _ ((rendering_of hr).mem_files hp))
      (rendering_of hr).files_nodup).1
  have hcase := asked secrets st k
  generalize certificate secrets st k = x at hcase ⊢
  cases hcase with
  | known m hm' => cases hm.symm.trans hm'
  | unrendered hm f hr => rw [hr]; rfl
  | written hm r hr hw => rw [hr]; rfl
  | unwritten hm r hr f hw => cases (hwritten r hr).symm.trans hw

theorem certificate_of_fresh {secrets : Lister Secret} (hi : secrets.Indexed) {st : CertStore}
    (h : st.Fresh secrets) {k : Key} (hk : k.Legible)
    (hd : ∀ f ∈ k.files, st.directory.Accepts f) :
    (certificate secrets st k).2 = (rendering secrets k).map Rendering.material := by
  cases hm : st.cached.get? k.text with
  | none => exact certificate_of_unknown secrets hm hd
  | some m =>
    obtain ⟨k', r, hk', hr, rfl⟩ := h k.text m hm
    have hkey : k' = k :=
      Key.text_injective (qualified_of_rendering hi hr).toLegible hk hk'
    subst hkey
    unfold certificate
    rw [hm, hr]
    rfl

end IngressCache.CertStore
