import IngressCache.Material.CertStore
import IngressCache.Proofs.Object.Listed

/-!
# Files of material

When a file can be written, what writing and removing several files does to the directory, and
which files the rendering of a secret names.
-/

namespace IngressCache

namespace Directory

structure IsFileName (name : String) : Prop where
  no_nul : '\x00' ∉ name.toList
  plain : '/' ∉ name.toList
  short : name.utf8ByteSize ≤ maxNameSize

theorem isFileName_iff (name : String) :
    IsFileName name ↔
      '\x00' ∉ name.toList ∧ '/' ∉ name.toList ∧ name.utf8ByteSize ≤ maxNameSize :=
  ⟨fun h => ⟨h.no_nul, h.plain, h.short⟩, fun h => ⟨h.1, h.2.1, h.2.2⟩⟩

instance (name : String) : Decidable (IsFileName name) :=
  decidable_of_iff' _ (isFileName_iff name)

theorem first_eq_iff (name : String) :
    String.ofList (name.toList.takeWhile (· ≠ '/')) = name ↔ '/' ∉ name.toList := by
  constructor
  · intro h hs
    rw [← h, String.toList_ofList] at hs
    have := List.mem_takeWhile_imp hs
    simp at this
  · intro h
    rw [Key.takeWhile_plain h, String.ofList_toList]

theorem nameFault?_eq_none_iff (d : Directory) (name : String) :
    d.nameFault? name = none ↔ IsFileName name := by
  rw [isFileName_iff]
  unfold nameFault?
  by_cases hn : '\x00' ∈ name.toList
  · simp [hn]
  · by_cases hs : '/' ∈ name.toList
    · have hf := mt (first_eq_iff name).1 (not_not.2 hs)
      simp only [hn, hs, hf, if_false, not_true_eq_false, false_and, and_false, iff_false]
      split
      · simp
      · split <;> simp
    · have hf := (first_eq_iff name).2 hs
      simp only [hn, hs, hf, if_false, if_true, not_false_eq_true, true_and]
      split
      · simp; omega
      · simp; omega

def Accepts (d : Directory) (name : String) : Prop :=
  IsFileName name ∧ d.get? name ≠ some .folder

instance (d : Directory) (name : String) : Decidable (d.Accepts name) :=
  inferInstanceAs (Decidable (_ ∧ _))

theorem write_of_accepts {d : Directory} {name : String} (h : d.Accepts name) (content : Bytes) :
    d.write name content = .ok (d.insert name (.file content privateMode)) := by
  unfold write
  rw [(nameFault?_eq_none_iff d name).2 h.1]
  simp only
  split
  · rename_i hf
    exact absurd hf h.2
  · rfl

theorem Accepts.insert {d : Directory} {f : String} (h : d.Accepts f) (g : String)
    (content : Bytes) (mode : Nat) : Accepts (d.insert g (.file content mode)) f := by
  refine ⟨h.1, ?_⟩
  rw [Table.get?_insert]
  split
  · simp
  · exact h.2

theorem Accepts.erase {d : Directory} {f : String} (h : d.Accepts f) (g : String) :
    Accepts (d.erase g) f := by
  refine ⟨h.1, ?_⟩
  rw [Table.get?_erase]
  split
  · simp
  · exact h.2

theorem isFileName_of_write {d d' : Directory} {name : String} {content : Bytes}
    (h : d.write name content = .ok d') : IsFileName name := by
  unfold write at h
  split at h
  · cases h
  · rename_i hfault
    exact (nameFault?_eq_none_iff d name).1 hfault

theorem content?_congr {d d' : Directory} {f : String} (h : d.get? f = d'.get? f) :
    d.content? f = d'.content? f := by
  simp only [content?, h]

end Directory

namespace CertStore
open Directory

/-! ### Writing and removing several files -/

/-- What holds of a directory however often a file is written or removed. -/
structure Lasting (P : Directory → Prop) : Prop where
  insert {d : Directory} {f : String} (content : Bytes) :
    IsFileName f → P d → P (d.insert f (.file content privateMode))
  erase {d : Directory} (f : String) : P d → P (d.erase f)

theorem lasting_accepts (f : String) : Lasting (·.Accepts f) where
  insert content _ h := h.insert _ content privateMode
  erase g h := h.erase g

section
variable {P : Directory → Prop} (hP : Lasting P) {d d' : Directory}
include hP

theorem Lasting.write (h : P d) {f : String} {content : Bytes}
    (hw : d.write f content = .ok d') : P d' := by
  rw [eq_insert_of_write hw]
  exact hP.insert content (isFileName_of_write hw) h

theorem Lasting.writeParts (h : P d) (ps : List Part) : P (writeParts d ps).1 := by
  induction ps generalizing d with
  | nil => exact h
  | cons p ps ih =>
    unfold CertStore.writeParts
    split
    · exact h
    · rename_i d' hw
      exact ih (hP.write h hw)

theorem Lasting.removeFiles (h : P d) (fs : List String) : P (removeFiles d fs).1 := by
  induction fs generalizing d with
  | nil => exact h
  | cons g fs ih =>
    unfold CertStore.removeFiles
    split
    · rename_i d' hr
      rw [eq_erase_of_remove hr]
      exact ih (hP.erase g h)
    · exact ih h
    · exact ih h

end

theorem writeParts_accepts {d : Directory} {f : String} (h : d.Accepts f) (ps : List Part) :
    (writeParts d ps).1.Accepts f :=
  (lasting_accepts f).writeParts h ps

theorem writeParts_get?_of_not_mem (d : Directory) (ps : List Part) {f : String}
    (hf : f ∉ ps.map Part.file) : (writeParts d ps).1.get? f = d.get? f := by
  induction ps generalizing d with
  | nil => rfl
  | cons p ps ih =>
    simp only [List.map_cons, List.mem_cons, not_or] at hf
    unfold writeParts
    split
    · rfl
    · rename_i d' hw
      rw [ih d' hf.2, eq_insert_of_write hw]
      exact Table.get?_insert_ne hf.1 _ _

/-- If every file can be written, all of them are, each with its own content. -/
theorem writeParts_of_accepts {d : Directory} {ps : List Part} (h : ∀ p ∈ ps, d.Accepts p.file)
    (hn : (ps.map Part.file).Nodup) :
    (writeParts d ps).2 = none ∧
      ∀ p ∈ ps, (writeParts d ps).1.content? p.file = some p.content := by
  induction ps generalizing d with
  | nil => exact ⟨rfl, fun p hp => absurd hp List.not_mem_nil⟩
  | cons p ps ih =>
    have hw := write_of_accepts (h p List.mem_cons_self) p.content
    have hstep : writeParts d (p :: ps) =
        writeParts (d.insert p.file (.file p.content privateMode)) ps := by
      rw [writeParts, hw]
    rw [List.map_cons, List.nodup_cons] at hn
    obtain ⟨hok, hcontent⟩ := ih (d := d.insert p.file (.file p.content privateMode))
      (fun q hq => (h q (List.mem_cons_of_mem _ hq)).insert _ _ _) hn.2
    rw [hstep]
    refine ⟨hok, fun q hq => ?_⟩
    rcases List.mem_cons.1 hq with rfl | hq
    · have hkeep := writeParts_get?_of_not_mem
        (d.insert q.file (.file q.content privateMode)) ps hn.1
      simp only [content?, hkeep, Table.get?_insert_self]
    · exact hcontent q hq

theorem removeFiles_get?_of_not_mem (d : Directory) (fs : List String) {f : String}
    (hf : f ∉ fs) : (removeFiles d fs).1.get? f = d.get? f := by
  induction fs generalizing d with
  | nil => rfl
  | cons g fs ih =>
    simp only [List.mem_cons, not_or] at hf
    unfold removeFiles
    split
    · rename_i d' hr
      rw [ih d' hf.2, eq_erase_of_remove hr]
      exact Table.get?_erase_ne hf.1 _
    · exact ih d hf.2
    · exact ih d hf.2

theorem mem_gone {a b : Option String} {f : String} (h : f ∈ if a = b then [] else a.toList) :
    a = some f ∧ b ≠ some f := by
  split at h
  · cases h
  · rename_i hne
    have ha : a = some f := by simpa using h
    exact ⟨ha, fun hb => hne (ha.trans hb.symm)⟩

theorem mem_files_of_dropped {m m' : Material} {f : String} (h : f ∈ dropped m m') :
    f ∈ m.files := by
  simp only [dropped, List.mem_append] at h
  simp only [Material.files, List.mem_append, Option.mem_toList]
  rcases h with (h | h) | h
  · exact .inl (.inl (mem_gone h).1)
  · exact .inl (.inr (mem_gone h).1)
  · exact .inr (mem_gone h).1

end CertStore

/-! ### The files of a secret -/

def Key.files (k : Key) : List String :=
  [k.bundleFile, k.authoritiesFile, k.revocationsFile]

theorem Key.bundleFile_ne_authoritiesFile (k : Key) : k.bundleFile ≠ k.authoritiesFile := by
  simp [bundleFile, authoritiesFile]

theorem Key.bundleFile_ne_revocationsFile (k : Key) : k.bundleFile ≠ k.revocationsFile := by
  simp [bundleFile, revocationsFile]

theorem Key.authoritiesFile_ne_revocationsFile (k : Key) :
    k.authoritiesFile ≠ k.revocationsFile := by
  simp [authoritiesFile, revocationsFile]

theorem Key.files_nodup (k : Key) : k.files.Nodup := by
  have h1 := k.bundleFile_ne_authoritiesFile
  have h2 := k.bundleFile_ne_revocationsFile
  have h3 := k.authoritiesFile_ne_revocationsFile
  simp [files, h1, h2, h3]

/-- The rendering names the files of that secret. -/
structure Rendering.Of (r : Rendering) (k : Key) : Prop where
  bundle : ∀ b ∈ r.bundle, b.1.file = k.bundleFile
  authorities : ∀ a ∈ r.authorities, a.file = k.authoritiesFile
  revocations : ∀ l ∈ r.revocations, l.file = k.revocationsFile

theorem Secret.renderBundle_file {s : Secret} {k : Key} {b : Option (Part × CertificateInfo)}
    (h : s.renderBundle k = .ok b) : ∀ p ∈ b, p.1.file = k.bundleFile := by
  intro p hp
  unfold renderBundle at h
  split at h
  · split at h
    · obtain rfl := Except.ok.inj h
      obtain rfl := Option.some.inj hp
      rfl
    · cases h
  · obtain rfl := Except.ok.inj h
    cases hp

theorem Secret.render_of {s : Secret} {k : Key} {r : Rendering} (h : s.render k = .ok r) :
    r.Of k := by
  unfold render at h
  cases hb : s.renderBundle k with
  | error f =>
    rw [hb] at h
    cases h
  | ok b =>
    rw [hb] at h
    obtain rfl := Except.ok.inj h
    refine ⟨renderBundle_file hb, fun a ha => ?_, fun l hl => ?_⟩
    · obtain ⟨c, -, rfl⟩ := Option.map_eq_some_iff.1 ha
      rfl
    · obtain ⟨a, -, hl⟩ := Option.bind_eq_some_iff.1 hl
      obtain ⟨c, -, rfl⟩ := Option.map_eq_some_iff.1 hl
      rfl

def Secret.ofAuthorities (k : Key) (authorities revocations : Bytes) : Secret where
  metadata := .ofKey k
  data := some ((Dict.empty.insert DataKey.authorities authorities).insert DataKey.revocations
    revocations)
  type := none

theorem Secret.render_ofAuthorities (k : Key) (authorities revocations : Bytes) :
    (ofAuthorities k authorities revocations).render k =
      .ok ⟨none, some ⟨k.authoritiesFile, authorities⟩,
        some ⟨k.revocationsFile, revocations⟩⟩ := by
  have hget : ∀ name, (ofAuthorities k authorities revocations).get? name =
      ((Dict.empty.insert DataKey.authorities authorities).insert DataKey.revocations
        revocations).get? name := fun _ => rfl
  have hcrt : (ofAuthorities k authorities revocations).get? DataKey.certificate = none := by
    rw [hget, Dict.get?_insert_ne (by decide), Dict.get?_insert_ne (by decide), Dict.get?_empty]
  have hca : (ofAuthorities k authorities revocations).get? DataKey.authorities =
      some authorities := by
    rw [hget, Dict.get?_insert_ne (by decide), Dict.get?_insert_self]
  have hcrl : (ofAuthorities k authorities revocations).get? DataKey.revocations =
      some revocations := by
    rw [hget, Dict.get?_insert_self]
  unfold render renderBundle
  rw [hcrt, hca, hcrl]
  rfl

theorem Secret.named_ofAuthorities {k : Key} (hk : k.Qualified) (authorities revocations : Bytes) :
    Named (ofAuthorities k authorities revocations) :=
  .of_metadata rfl hk

theorem Lister.find?_step_ofAuthorities {l : Lister Secret} (h : l.Indexed) {k : Key}
    (hk : k.Qualified) (authorities revocations : Bytes) :
    (l.step (.apply (.ofAuthorities k authorities revocations))).find? k =
      some (.ofAuthorities k authorities revocations) := by
  rw [find?_step_apply h (Secret.named_ofAuthorities hk authorities revocations)]
  exact if_pos rfl

namespace Rendering.Of

theorem files_sublist {r : Rendering} {k : Key} (h : r.Of k) :
    (r.parts.map Part.file).Sublist k.files := by
  obtain ⟨hb, ha, hl⟩ := h
  rcases r with ⟨_ | b, _ | a, _ | l⟩ <;> simp_all [parts, Key.files]

theorem files_nodup {r : Rendering} {k : Key} (h : r.Of k) : (r.parts.map Part.file).Nodup :=
  k.files_nodup.sublist h.files_sublist

theorem mem_files {r : Rendering} {k : Key} (h : r.Of k) {p : Part} (hp : p ∈ r.parts) :
    p.file ∈ k.files :=
  h.files_sublist.subset (List.mem_map_of_mem hp)

theorem file_cases {r : Rendering} {k : Key} (h : r.Of k) {f : String}
    (hf : f ∈ r.material.files) :
    (f = k.bundleFile ∧ r.material.bundle = some f) ∨
      (f = k.authoritiesFile ∧ r.material.authorities = some f) ∨
      (f = k.revocationsFile ∧ r.material.revocations = some f) := by
  simp only [Material.files, List.mem_append, Option.mem_toList] at hf
  rcases hf with (hf | hf) | hf
  · obtain ⟨b, hb, rfl⟩ := Option.map_eq_some_iff.1 hf
    exact .inl ⟨h.bundle b hb, hf⟩
  · obtain ⟨a, ha, rfl⟩ := Option.map_eq_some_iff.1 hf
    exact .inr (.inl ⟨h.authorities a ha, hf⟩)
  · obtain ⟨l, hl, rfl⟩ := Option.map_eq_some_iff.1 hf
    exact .inr (.inr ⟨h.revocations l hl, hf⟩)

theorem not_mem_of_dropped {r r' : Rendering} {k : Key} (h : r.Of k) (h' : r'.Of k) {f : String}
    (hf : f ∈ CertStore.dropped r.material r'.material) : f ∉ r'.material.files := by
  have h1 := k.bundleFile_ne_authoritiesFile
  have h2 := k.bundleFile_ne_revocationsFile
  have h3 := k.authoritiesFile_ne_revocationsFile
  intro hmem
  simp only [CertStore.dropped, List.mem_append] at hf
  rcases hf with (hf | hf) | hf
  all_goals obtain ⟨hold, hnew⟩ := CertStore.mem_gone hf
  · obtain ⟨b, hb, rfl⟩ := Option.map_eq_some_iff.1 hold
    have hfile := h.bundle b hb
    rcases h'.file_cases hmem with ⟨-, e⟩ | ⟨e, -⟩ | ⟨e, -⟩
    · exact hnew e
    · exact h1 (hfile.symm.trans e)
    · exact h2 (hfile.symm.trans e)
  · obtain ⟨a, ha, rfl⟩ := Option.map_eq_some_iff.1 hold
    have hfile := h.authorities a ha
    rcases h'.file_cases hmem with ⟨e, -⟩ | ⟨-, e⟩ | ⟨e, -⟩
    · exact h1 (e.symm.trans hfile)
    · exact hnew e
    · exact h3 (hfile.symm.trans e)
  · obtain ⟨l, hl, rfl⟩ := Option.map_eq_some_iff.1 hold
    have hfile := h.revocations l hl
    rcases h'.file_cases hmem with ⟨e, -⟩ | ⟨e, -⟩ | ⟨-, e⟩
    · exact h2 (e.symm.trans hfile)
    · exact h3 (e.symm.trans hfile)
    · exact hnew e

end Rendering.Of

end IngressCache
