import IngressCache.Proofs.Material.Repair
import IngressCache.Proofs.Reference.AccessPolicy

/-!
# Files that are accessed

References come from users of the cluster, and the names of files are made of them. Whatever is
asked for and whatever the store is told later, it writes and removes direct children of its
directory only: no name has a slash, and the joint between namespace and name keeps every name from
being one of the two that lead elsewhere.
-/

namespace IngressCache

/-- The name leads from a directory to a child of it. -/
structure IsComponent (name : String) : Prop where
  nonempty : name ≠ ""
  plain : '/' ∉ name.toList
  ne_dot : name ≠ "."
  ne_dots : name ≠ ".."

theorem isComponent_iff (name : String) :
    IsComponent name ↔ name ≠ "" ∧ '/' ∉ name.toList ∧ name ≠ "." ∧ name ≠ ".." :=
  ⟨fun h => ⟨h.nonempty, h.plain, h.ne_dot, h.ne_dots⟩, fun h => ⟨h.1, h.2.1, h.2.2.1, h.2.2.2⟩⟩

instance (name : String) : Decidable (IsComponent name) :=
  decidable_of_iff' _ (isComponent_iff name)

theorem isComponent_of_joined {name : String} (hplain : '/' ∉ name.toList)
    (hjoined : '_' ∈ name.toList) : IsComponent name := by
  refine ⟨?_, hplain, ?_, ?_⟩
  all_goals
    rintro rfl
    exact absurd hjoined (by decide)

theorem Key.isComponent_of_mem_files {k : Key} (hk : k.Legible) {f : String} (hf : f ∈ k.files) :
    IsComponent f := by
  obtain ⟨s, hs, rfl⟩ := exists_suffix_of_mem_files hf
  have hsuffix : ∀ s ∈ fileSuffixes, '/' ∉ s.toList := by decide
  refine isComponent_of_joined ?_ ?_
  · rw [toList_fileStem_append]
    simp only [List.mem_append, List.mem_cons, not_or]
    exact ⟨hk.ns_plain, by decide, hk.name_plain, hsuffix s hs⟩
  · rw [toList_fileStem_append]
    exact List.mem_append_right _ List.mem_cons_self

/-! ### What accesses preserve -/

/-- Writing and removing files of such names keeps the disk so. -/
structure Disk.Keeps {δ : Type} (D : Disk δ) (P : String → Prop) (I : δ → Prop) : Prop where
  write : ∀ {d f}, P f → I d → ∀ content, I (D.write d f content).1
  remove : ∀ {d f}, P f → I d → I (D.remove d f)

section Within

variable {δ : Type} {D : Disk δ} {P : String → Prop} {I : δ → Prop}

namespace Disk.Keeps

theorem writeParts (h : D.Keeps P I) {ps : List Part} (hps : ∀ p ∈ ps, P p.file) {d : δ}
    (hd : I d) : I (D.writeParts d ps).1 := by
  induction ps generalizing d with
  | nil => exact hd
  | cons p ps ih =>
    rw [List.forall_mem_cons] at hps
    have hp := h.write hps.1 hd p.content
    unfold Disk.writeParts
    generalize D.write d p.file p.content = x at hp ⊢
    rcases x with ⟨d', _ | f⟩
    · exact ih hps.2 hp
    · exact hp

theorem removeFiles (h : D.Keeps P I) {fs : List String} (hfs : ∀ f ∈ fs, P f) {d : δ}
    (hd : I d) : I (D.removeFiles d fs) := by
  induction fs generalizing d with
  | nil => exact hd
  | cons f fs ih =>
    rw [List.forall_mem_cons] at hfs
    exact ih hfs.2 (h.remove hfs.1 hd)

end Disk.Keeps

namespace StoreOn
open CertStore

variable {secrets : Lister Secret} {st : StoreOn δ} {k : Key} {t : String} {m : Material}

/-! ### Entries of single calls -/

theorem certificate_cached_ne (h : t ≠ k.text) :
    (st.certificate D secrets k).cached.get? t = st.cached.get? t := by
  unfold certificate
  split
  · rfl
  · split
    · rfl
    · simp only
      split
      · exact Table.get?_insert_ne h _ _
      · rfl

theorem certificate_cached_self (hm : (st.certificate D secrets k).cached.get? k.text = some m) :
    st.cached.get? k.text = some m ∨ ∃ r, rendering secrets k = .ok r ∧ m = r.material := by
  unfold certificate at hm
  split at hm
  · exact .inl hm
  · split at hm
    · exact .inl hm
    · rename_i r hr
      simp only at hm
      split at hm
      · rw [Table.get?_insert_self] at hm
        exact .inr ⟨r, hr, (Option.some.inj hm).symm⟩
      · exact .inl hm

theorem addDhParameters_cached (name : String) (content : Bytes) :
    (st.addDhParameters D name content).cached = st.cached := by
  unfold addDhParameters
  split <;> rfl

theorem mem_files_of_rendering {r : Rendering} (hr : rendering secrets k = .ok r) :
    ∀ f ∈ r.material.files, f ∈ k.files := by
  intro f hf
  rw [Rendering.files_material] at hf
  exact (rendering_of hr).files_sublist.subset hf

/-! ### Disks after single calls -/

section
variable (hD : D.Keeps P I)
include hD

theorem evict_disk (hm : ∀ m, st.cached.get? t = some m → ∀ f ∈ m.files, P f) (h : I st.disk) :
    I (st.evict D t).disk := by
  unfold evict
  split
  · exact h
  · rename_i m hm'
    exact hD.removeFiles (hm m hm') h

theorem writeParts_disk (hP : ∀ f ∈ k.files, P f) {r : Rendering} (hr : r.Of k) {d : δ}
    (h : I d) : I (D.writeParts d r.parts).1 :=
  hD.writeParts (fun _ hp => hP _ (hr.mem_files hp)) h

theorem certificate_disk (hP : ∀ f ∈ k.files, P f) (h : I st.disk) :
    I (st.certificate D secrets k).disk := by
  unfold certificate
  split
  · exact h
  · split
    · exact h
    · rename_i r hr
      have hwritten := writeParts_disk hD hP (rendering_of hr) h
      simp only
      split <;> exact hwritten

/-- The parameters of a secret go into the file of its bundle. -/
theorem addDhParameters_disk (hP : ∀ f ∈ k.files, P f) (content : Bytes) (h : I st.disk) :
    I (st.addDhParameters D k.fileStem content).disk := by
  unfold addDhParameters
  split
  · exact h
  · exact hD.write (hP _ List.mem_cons_self) h content

theorem refresh_disk (hP : ∀ k : Key, Key.parse t = .ok k → ∀ f ∈ k.files, P f)
    (hm : ∀ m, st.cached.get? t = some m → ∀ f ∈ m.files, P f) (h : I st.disk) :
    I (st.refresh D secrets t).disk := by
  unfold refresh
  split
  · exact h
  · rename_i m hm'
    split
    · exact evict_disk hD hm h
    · rename_i r hr
      obtain ⟨k, hk, hr⟩ := renderingOf_eq_ok hr
      have hwritten := writeParts_disk hD (hP k hk) (rendering_of hr) h
      split
      · exact h
      · simp only
        split
        · exact hD.removeFiles (fun f hf => hm m hm' f (mem_files_of_dropped hf)) hwritten
        · exact evict_disk hD hm hwritten

end

end StoreOn

/-! ### Stores after any call -/

/-- The disk is so, and all files that the store knows have such names. -/
structure StoreOn.Within (P : String → Prop) (I : δ → Prop) (st : StoreOn δ) :
    Prop where
  disk : I st.disk
  files : ∀ t m, st.cached.get? t = some m → ∀ f ∈ m.files, P f

namespace StoreOn.Within

variable {st : StoreOn δ}

theorem evict (hD : D.Keeps P I) (h : st.Within P I) (t : String) :
    (st.evict D t).Within P I := by
  refine ⟨evict_disk hD (h.files t) h.disk, fun t' m hm => ?_⟩
  rw [evict_cached] at hm
  split at hm
  · cases hm
  · exact h.files t' m hm

variable (hD : D.Keeps P I) (hP : ∀ k : Key, k.Legible → ∀ f ∈ k.files, P f)
  (secrets : Lister Secret)
include hD hP

theorem certificate (h : st.Within P I) {k : Key} (hk : k.Legible) :
    (st.certificate D secrets k).Within P I := by
  refine ⟨certificate_disk hD (hP k hk) h.disk, fun t m hm => ?_⟩
  by_cases ht : t = k.text
  · subst ht
    rcases certificate_cached_self hm with hm | ⟨r, hr, rfl⟩
    · exact h.files _ m hm
    · exact fun f hf => hP k hk f (mem_files_of_rendering hr f hf)
  · exact h.files t m ((certificate_cached_ne ht).symm.trans hm)

theorem refresh (h : st.Within P I) (t : String) : (st.refresh D secrets t).Within P I := by
  have hparsed : ∀ k : Key, Key.parse t = .ok k → ∀ f ∈ k.files, P f :=
    fun k hk => hP k (Key.legible_of_parse hk)
  refine ⟨refresh_disk hD hparsed (h.files t) h.disk, fun t' m hm => ?_⟩
  by_cases ht : t' = t
  · subst ht
    obtain ⟨-, r, hr, rfl⟩ := refresh_cached_self hm
    obtain ⟨k, hk, hr⟩ := CertStore.renderingOf_eq_ok hr
    exact fun f hf => hparsed k hk f (mem_files_of_rendering hr f hf)
  · exact h.files t' m ((refresh_cached_ne ht).symm.trans hm)

theorem reconcileAll (h : st.Within P I) (ts : List String) :
    (st.reconcileAll D secrets ts).Within P I := by
  induction ts generalizing st with
  | nil => exact h
  | cons t ts ih =>
    refine ih ?_
    unfold StoreOn.reconcile
    split
    · exact h.refresh hD hP secrets t
    · exact h.evict hD t

theorem follow (h : st.Within P I) (call : StoreCall) :
    (st.follow D secrets call).Within P I := by
  cases call with
  | update t => exact h.refresh hD hP secrets t
  | delete t => exact h.evict hD t
  | resync => exact h.reconcileAll hD hP secrets _

theorem addDhParameters (h : st.Within P I) {k : Key} (hk : k.Legible) (content : Bytes) :
    (st.addDhParameters D k.fileStem content).Within P I := by
  refine ⟨addDhParameters_disk hD (hP k hk) content h.disk, ?_⟩
  rw [addDhParameters_cached]
  exact h.files

theorem enquire (h : st.Within P I) (p : Policy) {e : Enquiry} (he : '/' ∉ e.query.ns.toList) :
    (st.enquire D secrets p e).Within P I := by
  unfold StoreOn.enquire
  split
  · exact h
  · rename_i k hk
    have hlegible := Policy.legible_of_resolve he hk
    split
    · exact h.certificate hD hP secrets hlegible
    · split
      · exact h
      · exact h.addDhParameters hD hP hlegible _

end StoreOn.Within

end Within

/-! ### Runs -/

/-- What can happen to a store and to the lister that it reads. -/
inductive Deed
  | enquire (p : Policy) (e : Enquiry)
  | call (c : StoreCall)
  | list (secrets : Lister Secret)

/-- The default namespace of an enquiry has no slash. -/
def Deed.Plain : Deed → Prop
  | .enquire _ e => '/' ∉ e.query.ns.toList
  | .call _ | .list _ => True

def SecretStore.deed (s : Lister Secret × SecretStore) : Deed → Lister Secret × SecretStore
  | .enquire p e => (s.1, s.2.enquire p s.1 e)
  | .call c => (s.1, ((s.2.call s.1 c).map Prod.fst).getD s.2)
  | .list secrets => (secrets, s.2)

def StoreOn.deed {δ : Type} (D : Disk δ) (s : Lister Secret × StoreOn δ) :
    Deed → Lister Secret × StoreOn δ
  | .enquire p e => (s.1, s.2.enquire D s.1 p e)
  | .call c => (s.1, s.2.follow D s.1 c)
  | .list secrets => (secrets, s.2)

theorem Disk.Holds.deeds_eq {δ : Type} {D : Disk δ} {view : δ → Directory} (h : D.Holds view)
    (secrets : Lister Secret) (st : StoreOn δ) (deeds : List Deed) :
    deeds.foldl SecretStore.deed (secrets, .files (st.view view)) =
      ((deeds.foldl (StoreOn.deed D) (secrets, st)).1,
        .files ((deeds.foldl (StoreOn.deed D) (secrets, st)).2.view view)) := by
  induction deeds generalizing secrets st with
  | nil => rfl
  | cons deed deeds ih =>
    rw [List.foldl_cons, List.foldl_cons]
    cases deed with
    | enquire p e =>
      rw [SecretStore.deed, h.enquire_eq]
      exact ih secrets _
    | call c =>
      have hcall : (((SecretStore.files (st.view view)).call secrets c).map Prod.fst).getD
          (.files (st.view view)) = .files ((st.follow D secrets c).view view) :=
        congrArg SecretStore.files (h.follow_eq secrets st c)
      rw [SecretStore.deed, hcall]
      exact ih secrets _
    | list secrets' => exact ih secrets' st

inductive FileAccess
  | write (file : String) (content : Bytes)
  | remove (file : String)
  deriving DecidableEq

def FileAccess.file : FileAccess → String
  | .write f _ | .remove f => f

namespace Disk

variable {δ : Type}

/-- The disk, with a record of every access to it, whether or not it succeeds. -/
def recording (D : Disk δ) : Disk (δ × List FileAccess) where
  write d f content :=
    (((D.write d.1 f content).1, d.2 ++ [.write f content]), (D.write d.1 f content).2)
  remove d f := (D.remove d.1 f, d.2 ++ [.remove f])

theorem Holds.recording {D : Disk δ} {view : δ → Directory} (h : D.Holds view) :
    D.recording.Holds (view ∘ Prod.fst) :=
  ⟨fun d => h.write d.1, fun d => h.remove d.1⟩

theorem keeps_recording (D : Disk δ) (P : String → Prop) :
    D.recording.Keeps P fun d => ∀ a ∈ d.2, P a.file := by
  refine ⟨fun hf hd content => ?_, fun hf hd => ?_⟩
  all_goals
    intro a ha
    rcases List.mem_append.1 ha with ha | ha
    · exact hd a ha
    · obtain rfl := List.mem_singleton.1 ha
      exact hf

end Disk

theorem StoreOn.Within.deeds {δ : Type} {D : Disk δ} {P : String → Prop} {I : δ → Prop}
    (hD : D.Keeps P I) (hP : ∀ k : Key, k.Legible → ∀ f ∈ k.files, P f)
    (secrets : Lister Secret) {st : StoreOn δ} (h : st.Within P I) {deeds : List Deed}
    (hplain : ∀ deed ∈ deeds, deed.Plain) :
    (deeds.foldl (StoreOn.deed D) (secrets, st)).2.Within P I := by
  induction deeds generalizing secrets st with
  | nil => exact h
  | cons deed deeds ih =>
    rw [List.forall_mem_cons] at hplain
    rw [List.foldl_cons]
    cases deed with
    | enquire p e => exact ih secrets (h.enquire hD hP secrets p hplain.1) hplain.2
    | call c => exact ih secrets (h.follow hD hP secrets c) hplain.2
    | list secrets' => exact ih secrets' h hplain.2

/-- Whatever is asked for, whatever the store is told and whatever becomes of secrets and disk,
every access is to a child of the directory. Where the disk holds a directory, the run is that of the
store of that directory. -/
theorem accesses_are_components {δ : Type} (D : Disk δ) (d : δ) (secrets : Lister Secret)
    {deeds : List Deed} (h : ∀ deed ∈ deeds, deed.Plain) :
    let s := deeds.foldl (StoreOn.deed D.recording) (secrets, ⟨(d, []), .empty⟩)
    (∀ a ∈ s.2.disk.2, IsComponent a.file) ∧
      ∀ view, D.Holds view →
        deeds.foldl SecretStore.deed (secrets, .files ⟨view d, .empty⟩) =
          (s.1, .files (s.2.view (view ∘ Prod.fst))) := by
  intro s
  have hstart : StoreOn.Within IsComponent (fun d => ∀ a ∈ d.2, IsComponent a.file)
      ⟨((d, []) : δ × List FileAccess), .empty⟩ :=
    ⟨fun a ha => absurd ha List.not_mem_nil, fun t m hm => by cases hm⟩
  refine ⟨?_, fun view hview => hview.recording.deeds_eq secrets ⟨(d, []), .empty⟩ deeds⟩
  exact (hstart.deeds (D.keeps_recording IsComponent)
    (fun _ hk _ => Key.isComponent_of_mem_files hk) secrets h).disk

/-- A reference to a secret that is named like a file outside, of a namespace that is named like the
directory above, and its removal when the secret is gone. -/
theorem accesses_are_components_of_parent :
    let k : Key := ⟨"..", "passwd"⟩
    let listed : Lister Secret := Lister.empty.step (.apply (.ofAuthorities k [65] [66]))
    let deeds : List Deed := [.enquire ⟨false⟩ (.ca ⟨"", "../passwd", .global⟩), .list .empty,
      .call .resync]
    let s := deeds.foldl (StoreOn.deed Disk.directory.recording)
      (listed, ⟨(Table.empty, []), .empty⟩)
    s.2.disk.2 = [.write ".._passwd_ca.pem" [65], .write ".._passwd_crl.pem" [66],
        .remove ".._passwd_ca.pem", .remove ".._passwd_crl.pem"] ∧
      ∀ a ∈ s.2.disk.2, IsComponent a.file := by
  intro k listed deeds s
  have hplain : ∀ deed ∈ deeds, deed.Plain := by
    simp only [deeds, List.forall_mem_cons, Deed.Plain]
    exact ⟨by decide, trivial, trivial, fun _ h => absurd h List.not_mem_nil⟩
  refine ⟨by decide +kernel, ?_⟩
  exact (accesses_are_components Disk.directory Table.empty listed hplain).1

end IngressCache
