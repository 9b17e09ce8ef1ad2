import IngressCache.Proofs.Material.FileNames
import IngressCache.Proofs.Material.Residue
import IngressCache.Proofs.Runs

/-!
# The inventory of the directory

As long as no file operation fails, the directory has the files that the entries of the store
name, each of them for one entry, and nothing else. Each operation is a change at one entry: an
entry that goes takes its files along, and an entry that comes or changes brings its new files and
drops those it no longer names. Files of other entries are not touched, since a file belongs to
one secret.
-/

namespace IngressCache

namespace Directory

/-- Nothing but files that their owner alone may read and write. -/
def Private (d : Directory) : Prop :=
  ∀ f node, d.get? f = some node → IsFileName f ∧ ∃ content, node = .file content privateMode

theorem Private.removable_iff {d : Directory} (h : d.Private) (f : String) :
    d.Removable f ↔ d.get? f ≠ none := by
  rw [Directory.removable_iff]
  constructor
  · rintro ⟨-, content, mode, hf⟩ hnone
    cases hf.symm.trans hnone
  · intro hne
    obtain ⟨node, hnode⟩ := Option.ne_none_iff_exists'.1 hne
    obtain ⟨hname, content, rfl⟩ := h f node hnode
    exact ⟨hname, content, privateMode, hnode⟩

theorem Private.insert {d : Directory} (h : d.Private) {g : String} (hg : IsFileName g)
    (content : Bytes) : Private (d.insert g (.file content privateMode)) := by
  intro f node hnode
  rw [Table.get?_insert] at hnode
  split at hnode
  · rename_i hf
    obtain rfl := Option.some.inj hnode
    exact ⟨hf ▸ hg, content, rfl⟩
  · exact h f node hnode

theorem Private.erase {d : Directory} (h : d.Private) (g : String) : Private (d.erase g) := by
  intro f node hnode
  rw [Table.get?_erase] at hnode
  split at hnode
  · cases hnode
  · exact h f node hnode

end Directory

namespace CertStore
open Directory

theorem lasting_private : Lasting Private where
  insert content hf h := h.insert hf content
  erase f h := h.erase f

/-! ### Faults -/

/-- A refresh that cannot write a file reports it. -/
theorem refresh_reports {secrets : Lister Secret} {st : CertStore} {t : String} {m : Material}
    (hm : st.cached.get? t = some m) {r : Rendering} (hr : renderingOf secrets t = .ok r)
    (hne : r.material ≠ m) {f : IoFault} (hw : (writeParts st.directory r.parts).2 = some f) :
    .refresh t (.io f) ∈ (st.refresh secrets t).2 := by
  have hb : (Key.require t).bind (rendering secrets) = .ok r := hr
  unfold refresh rerender
  rw [hm]
  simp only [hb, if_neg hne, writeRendering_of_some hw]
  exact List.mem_cons_self

def isIoFault : Failure → Bool
  | .io _ => true
  | _ => false

/-- Whether a file operation failed. -/
def reportsFault : Warning → Bool
  | .refresh _ cause => isIoFault cause
  | .removal _ _ => true
  | _ => false

/-! ### Files of entries -/

/-- An entry names the file. -/
def Owns (st : CertStore) (f : String) : Prop :=
  ∃ t m, st.cached.get? t = some m ∧ f ∈ m.files

/-- An entry other than that of `t` names the file. -/
def OwnsBeside (st : CertStore) (t f : String) : Prop :=
  ∃ t' m, t' ≠ t ∧ st.cached.get? t' = some m ∧ f ∈ m.files

/-- What a store owns that differs at one entry only. -/
theorem owns_iff (t : String) (st st' : CertStore)
    (h : ∀ t', t' ≠ t → st'.cached.get? t' = st.cached.get? t') (f : String) :
    st'.Owns f ↔ (∃ m, st'.cached.get? t = some m ∧ f ∈ m.files) ∨ st.OwnsBeside t f := by
  constructor
  · rintro ⟨t', m, hm, hf⟩
    by_cases ht : t' = t
    · exact .inl ⟨m, ht ▸ hm, hf⟩
    · exact .inr ⟨t', m, ht, (h t' ht).symm.trans hm, hf⟩
  · rintro (⟨m, hm, hf⟩ | ⟨t', m, ht, hm, hf⟩)
    · exact ⟨t, m, hm, hf⟩
    · exact ⟨t', m, (h t' ht).trans hm, hf⟩

/-- A file of the old material is one of the new or is dropped. -/
theorem mem_files_or_dropped {m : Material} (m' : Material) {f : String} (hf : f ∈ m.files) :
    f ∈ m'.files ∨ f ∈ dropped m m' := by
  have hgone : ∀ {a b : Option String}, a = some f →
      b = some f ∨ f ∈ (if a = b then [] else a.toList) := by
    intro a b ha
    by_cases he : a = b
    · exact .inl (he ▸ ha)
    · rw [if_neg he, ha]
      exact .inr List.mem_cons_self
  simp only [Material.files, List.mem_append, Option.mem_toList] at hf ⊢
  simp only [dropped, List.mem_append]
  rcases hf with (hf | hf) | hf
  · exact (hgone hf).imp (fun h => .inl (.inl h)) fun h => .inl (.inl h)
  · exact (hgone hf).imp (fun h => .inl (.inr h)) fun h => .inl (.inr h)
  · exact (hgone hf).imp .inr .inr

/-! ### The inventory -/

/-- The entry is the material of a rendering of its secret, whenever that was. -/
def Rendered (t : String) (m : Material) : Prop :=
  ∃ k r, Key.Simple k ∧ k.text = t ∧ Rendering.Of r k ∧ m = r.material

theorem Rendered.mem_files {t : String} {m : Material} (h : Rendered t m) {f : String}
    (hf : f ∈ m.files) : ∃ k, Key.Simple k ∧ k.text = t ∧ f ∈ k.files := by
  obtain ⟨k, r, hk, rfl, hr, rfl⟩ := h
  rw [Rendering.files_material] at hf
  exact ⟨k, hk, rfl, hr.files_sublist.subset hf⟩

/-- No file belongs to two entries. -/
theorem Rendered.text_eq {t t' : String} {m m' : Material} (h : Rendered t m)
    (h' : Rendered t' m') {f : String} (hf : f ∈ m.files) (hf' : f ∈ m'.files) : t = t' := by
  obtain ⟨k, hk, rfl, hfk⟩ := h.mem_files hf
  obtain ⟨k', hk', rfl, hfk'⟩ := h'.mem_files hf'
  rw [Key.eq_of_mem_files hk hk' hfk hfk']

structure Tidy (st : CertStore) : Prop where
  entries : ∀ t m, st.cached.get? t = some m → Rendered t m
  directory : st.directory.Private
  files : ∀ f, st.directory.Removable f ↔ st.Owns f

theorem tidy_empty : Tidy .empty := by
  refine ⟨fun t m h => ?_, fun f node h => ?_, fun f => ?_⟩
  · cases h
  · cases h
  · rw [removable_iff]
    constructor
    · rintro ⟨-, content, mode, h⟩
      cases h
    · rintro ⟨t, m, h, -⟩
      cases h

namespace Tidy

variable {secrets : Lister Secret} {st : CertStore} {k : Key} {t f : String}

theorem not_ownsBeside (h : st.Tidy) (hk : k.Simple) (hf : f ∈ k.files) :
    ¬st.OwnsBeside k.text f := by
  rintro ⟨t', m, hne, hm, hfm⟩
  obtain ⟨k', hk', rfl, hfk'⟩ := (h.entries t' m hm).mem_files hfm
  exact hne (congrArg Key.text (Key.eq_of_mem_files hk' hk hfk' hf))

/-! ### Entries that go -/

theorem evict (h : st.Tidy) (t : String) : (st.evict t).1.Tidy := by
  cases hm : st.cached.get? t with
  | none =>
    unfold CertStore.evict
    rw [hm]
    exact h
  | some m =>
    have hcached : ∀ t', t' ≠ t → (st.evict t).1.cached.get? t' = st.cached.get? t' := by
      intro t' ht
      rw [evict_cached, if_neg ht]
    have hgone : (st.evict t).1.cached.get? t = none := by
      rw [evict_cached, if_pos rfl]
    have hdirectory : (st.evict t).1.directory = (removeFiles st.directory m.files).1 := by
      unfold CertStore.evict
      rw [hm]
    refine ⟨fun t' m' hm' => ?_, ?_, fun f => ?_⟩
    · by_cases ht : t' = t
      · rw [ht, hgone] at hm'
        cases hm'
      · exact h.entries t' m' ((hcached t' ht).symm.trans hm')
    · exact lasting_private.evict h.directory t
    · obtain ⟨k, r, hk, rfl, hr, rfl⟩ := h.entries t m hm
      rw [hdirectory, removable_removeFiles, h.files, owns_iff k.text st _ hcached, hgone,
        owns_iff k.text st st fun _ _ => rfl, hm]
      constructor
      · rintro ⟨⟨m', hm', hf⟩ | hbeside, hnot⟩
        · obtain rfl := Option.some.inj hm'
          exact absurd hf hnot
        · exact .inr hbeside
      · rintro (⟨m', hm', -⟩ | hbeside)
        · cases hm'
        · refine ⟨.inr hbeside, fun hf => h.not_ownsBeside hk ?_ hbeside⟩
          rw [Rendering.files_material] at hf
          exact hr.files_sublist.subset hf

/-! ### Entries that come or change -/

/-- An entry is set to a rendering that was written, and files that it had before and has no longer
are removed. -/
theorem put (h : st.Tidy) (hk : k.Simple) {r : Rendering} (hr : r.Of k)
    (hw : (writeParts st.directory r.parts).2 = none) (gone : List String)
    (hgone : ∀ f ∈ gone, f ∈ k.files ∧ f ∉ r.material.files)
    (hold : ∀ m, st.cached.get? k.text = some m → ∀ f ∈ m.files,
      f ∈ r.material.files ∨ f ∈ gone) :
    Tidy ⟨(removeFiles (writeParts st.directory r.parts).1 gone).1,
      st.cached.insert k.text r.material⟩ := by
  refine ⟨fun t m hm => ?_, ?_, fun f => ?_⟩
  · rw [Table.get?_insert] at hm
    split at hm
    · rename_i ht
      exact ⟨k, r, hk, ht.symm, hr, (Option.some.inj hm).symm⟩
    · exact h.entries t m hm
  · exact lasting_private.removeFiles (lasting_private.writeParts h.directory r.parts) gone
  · rw [removable_removeFiles, removable_writeParts, writable_of_none hw,
      ← Rendering.files_material, h.files, owns_iff k.text st st fun _ _ => rfl,
      owns_iff k.text st _ fun _ ht => Table.get?_insert_ne ht _ _]
    simp only [Table.get?_insert_self, Option.some.injEq, exists_eq_left']
    constructor
    · rintro ⟨(⟨m, hm, hf⟩ | hbeside) | hnew, hnot⟩
      · exact .inl ((hold m hm f hf).resolve_right hnot)
      · exact .inr hbeside
      · exact .inl hnew
    · rintro (hnew | hbeside)
      · exact ⟨.inr hnew, fun hf => (hgone f hf).2 hnew⟩
      · exact ⟨.inl (.inr hbeside), fun hf => h.not_ownsBeside hk (hgone f hf).1 hbeside⟩

theorem refresh (h : st.Tidy) (hquiet : ∀ w ∈ (st.refresh secrets t).2, reportsFault w = false) :
    (st.refresh secrets t).1.Tidy := by
  have hcase := refreshed secrets st t
  generalize hst : (st.refresh secrets t).1 = st' at hcase ⊢
  cases hcase with
  | unknown hm => exact h
  | gone m hm f hr => exact h.evict t
  | same m hm r hr he => exact h
  | unwritten m hm r hr hne f hw =>
    cases hquiet _ (refresh_reports hm hr hne hw)
  | written m hm r hr hne hw =>
    obtain ⟨k, r₀, hk, rfl, hr₀, rfl⟩ := h.entries t m hm
    have hnew : rendering secrets k = .ok r := (renderingOf_text secrets hk.toLegible).symm.trans hr
    refine h.put hk (rendering_of hnew) hw _ (fun f hf => ⟨?_, ?_⟩) fun m hm' f hf => ?_
    · have hfile := mem_files_of_dropped hf
      rw [Rendering.files_material] at hfile
      exact hr₀.files_sublist.subset hfile
    · exact hr₀.not_mem_of_dropped (rendering_of hnew) hf
    · obtain rfl := Option.some.inj (hm.symm.trans hm')
      exact mem_files_or_dropped r.material hf

theorem reconcileAll (h : st.Tidy) {ts : List String}
    (hquiet : ∀ w ∈ (st.reconcileAll secrets ts).2, reportsFault w = false) :
    (st.reconcileAll secrets ts).1.Tidy := by
  induction ts generalizing st with
  | nil => exact h
  | cons t ts ih =>
    have hvisit : ∀ w ∈ (st.reconcile secrets t).2, reportsFault w = false := fun w hw =>
      hquiet w (List.mem_append_left _ hw)
    have hrest : ∀ w ∈ ((st.reconcile secrets t).1.reconcileAll secrets ts).2,
        reportsFault w = false := fun w hw => hquiet w (List.mem_append_right _ hw)
    rw [reconcileAll_cons]
    refine ih ?_ hrest
    rcases reconcile_eq secrets st t with he | he <;> rw [he] at hvisit ⊢
    · exact h.refresh hvisit
    · exact h.evict t

theorem follow (h : st.Tidy) {call : StoreCall}
    (hquiet : ∀ w ∈ (st.follow secrets call).2, reportsFault w = false) :
    (st.follow secrets call).1.Tidy := by
  cases call with
  | update t => exact h.refresh hquiet
  | delete t => exact h.evict t
  | resync => exact h.reconcileAll hquiet

theorem certificate (h : st.Tidy) (hk : k.Simple)
    (hquiet : ∀ f, (certificate secrets st k).2 ≠ .error (.io f)) :
    (certificate secrets st k).1.Tidy := by
  have hcase := asked secrets st k
  generalize CertStore.certificate secrets st k = x at hcase hquiet ⊢
  cases hcase with
  | known m hm => exact h
  | unrendered hm f hr => exact h
  | unwritten hm r hr f hw => exact absurd rfl (hquiet f)
  | written hm r hr hw =>
    exact h.put hk (rendering_of hr) hw [] (fun f hf => absurd hf List.not_mem_nil) fun m hm' => by
      cases hm.symm.trans hm'

end Tidy

/-! ### Runs -/

/-- A store and the lister that it reads. -/
structure Scene where
  secrets : Lister Secret
  store : CertStore

inductive Turn
  | ask (k : Key)
  | call (c : StoreCall)
  | list (secrets : Lister Secret)

/-- A turn at which no file operation fails. -/
def Scene.turn? (s : Scene) : Turn → Option Scene
  | .ask k =>
    match certificate s.secrets s.store k with
    | (_, .error (.io _)) => none
    | (st, _) => if k.Simple then some { s with store := st } else none
  | .call c =>
    let (st, warnings) := s.store.follow s.secrets c
    if warnings.any reportsFault then none else some { s with store := st }
  | .list secrets => some { s with secrets := secrets }

theorem Tidy.turn {s s' : Scene} {turn : Turn} (hturn : s.turn? turn = some s')
    (h : s.store.Tidy) : s'.store.Tidy := by
  cases turn with
  | ask k =>
    simp only [Scene.turn?] at hturn
    split at hturn
    · cases hturn
    · rename_i st result hresult hanswer
      obtain ⟨hk, hturn⟩ := Option.ite_none_right_eq_some.1 hturn
      obtain rfl := Option.some.inj hturn
      have hcert : (CertStore.certificate s.secrets s.store k).1.Tidy := by
        refine h.certificate hk fun f hf => ?_
        rw [hanswer] at hf
        exact hresult f hf
      rw [hanswer] at hcert
      exact hcert
  | call c =>
    simp only [Scene.turn?] at hturn
    obtain ⟨hquiet, hturn⟩ := Option.ite_none_left_eq_some.1 hturn
    obtain rfl := Option.some.inj hturn
    rw [List.any_eq_true] at hquiet
    refine h.follow fun w hw => Bool.eq_false_iff.2 fun hfault => hquiet ⟨w, hw, hfault⟩
  | list secrets =>
    obtain rfl := Option.some.inj hturn
    exact h

/-- However secrets come, change and go, and however the store is asked and told, the directory has
the files that the entries name, no file is that of two entries, and only the owner may read
them. -/
theorem directory_eq_inventory {secrets : Lister Secret} {turns : List Turn} {s : Scene}
    (hrun : turns.foldlM Scene.turn? ⟨secrets, .empty⟩ = some s) :
    (∀ f, s.store.directory.get? f ≠ none ↔
        ∃ t m, s.store.cached.get? t = some m ∧ f ∈ m.files) ∧
      (∀ t t' m m' f, s.store.cached.get? t = some m → s.store.cached.get? t' = some m' →
        f ∈ m.files → f ∈ m'.files → t = t') ∧
      ∀ f node, s.store.directory.get? f = some node → ∃ content, node = .file content 0o600 := by
  have htidy : s.store.Tidy := foldlM_preserves (P := fun s => s.store.Tidy)
    (fun _ _ _ hturn h => h.turn hturn) hrun tidy_empty
  refine ⟨fun f => ?_, fun t t' m m' f hm hm' hf hf' => ?_, fun f node hnode => ?_⟩
  · rw [← htidy.directory.removable_iff]
    exact htidy.files f
  · exact (htidy.entries t m hm).text_eq (htidy.entries t' m' hm') hf hf'
  · exact (htidy.directory f node hnode).2

/-- Two secrets are asked for; one changes and the other goes. -/
def exchange (j k : Key) : List Turn :=
  let listed : Lister Secret := Lister.empty.step (.apply (.ofAuthorities j [65] [66]))
  let both := listed.step (.apply (.ofAuthorities k [67] [68]))
  let changed := both.step (.apply (.ofAuthorities k [69] [70]))
  [.list both, .ask j, .ask k, .list changed, .call (.update k.text),
    .list (changed.step (.delete (.ofAuthorities j [65] [66]))), .call .resync]

theorem directory_eq_inventory_of_exchange :
    let j : Key := ⟨"web", "old"⟩
    let k : Key := ⟨"web", "new"⟩
    ∃ s, (exchange j k).foldlM Scene.turn? ⟨.empty, .empty⟩ = some s ∧
      s.store.cached.keys = [k.text] ∧
      ∀ f, s.store.directory.get? f ≠ none ↔
        ∃ t m, s.store.cached.get? t = some m ∧ f ∈ m.files := by
  intro j k
  have hkeys : ((exchange j k).foldlM Scene.turn? ⟨.empty, .empty⟩).map
      (fun s => s.store.cached.keys) = some [k.text] := by
    decide +kernel
  obtain ⟨s, hs, hkeys⟩ := Option.map_eq_some_iff.1 hkeys
  exact ⟨s, hs, hkeys, (directory_eq_inventory hs).1⟩

end CertStore

end IngressCache
