import IngressCache.Proofs.Object.WrittenKey
import IngressCache.Watch.Report

/-!
# Objects in listers

Objects as the cluster holds them have a namespace and a name. A lister that only such objects
reach files each under its own key, so a lookup by key is changed by a step of the watch at the
key of that step alone. One that also has objects without a namespace finds them in every namespace
that has none of their name.
-/

namespace IngressCache

variable {α : Type} [ClusterObject α]

def keyOf (o : α) : Key :=
  (ClusterObject.metadata o).key

/-- An object as the cluster holds it. -/
def Named (o : α) : Prop :=
  ∃ k : Key, k.Qualified ∧ (ClusterObject.metadata o).ns = some k.ns ∧
    (ClusterObject.metadata o).name = some k.name

namespace Named

theorem keyOf_eq {o : α} {k : Key} (hns : (ClusterObject.metadata o).ns = some k.ns)
    (hname : (ClusterObject.metadata o).name = some k.name) : keyOf o = k := by
  simp [keyOf, Metadata.key, Metadata.nsOrEmpty, Metadata.nameOrEmpty, hns, hname]

theorem of_metadata {o : α} {k : Key} (h : ClusterObject.metadata o = .ofKey k)
    (hk : k.Qualified) : Named o := by
  refine ⟨k, hk, ?_, ?_⟩
  · rw [h]
    rfl
  · rw [h]
    rfl

theorem qualified {o : α} (h : Named o) : (keyOf o).Qualified := by
  obtain ⟨k, hk, hns, hname⟩ := h
  rw [keyOf_eq hns hname]
  exact hk

theorem identity_eq {o : α} (h : Named o) : identity o = (keyOf o).identity := by
  obtain ⟨k, -, hns, hname⟩ := h
  rw [keyOf_eq hns hname]
  simp [identity, Key.identity, hns, hname]

theorem objectKey_eq {o : α} (h : Named o) : objectKey o = (keyOf o).text :=
  (Key.text_eq_path h.qualified).symm

end Named

theorem Key.identity_injective {j k : Key} (h : j.identity = k.identity) : j = k := by
  rcases j with ⟨jn, jm⟩
  rcases k with ⟨kn, km⟩
  simp only [Key.identity, Identity.mk.injEq, Option.some.injEq] at h
  rw [h.1, h.2]

/-! ### Tables of objects -/

/-- Every object of the table is as `P` says, and stands under its own identity. -/
def FiledAs (P : α → Prop) (t : Table Identity α) : Prop :=
  ∀ i o, t.get? i = some o → identity o = i ∧ P o

theorem filedAs_empty (P : α → Prop) : FiledAs P Table.empty := by
  intro i o h
  simp at h

theorem FiledAs.insert {P : α → Prop} {t : Table Identity α} (h : FiledAs P t) {o : α}
    (ho : P o) : FiledAs P (t.insert (identity o) o) := by
  intro i p hp
  rw [Table.get?_insert] at hp
  split at hp
  · rename_i hi
    obtain rfl := Option.some.inj hp
    exact ⟨hi.symm, ho⟩
  · exact h i p hp

theorem FiledAs.erase {P : α → Prop} {t : Table Identity α} (h : FiledAs P t) (i : Identity) :
    FiledAs P (t.erase i) := by
  intro j p hp
  rw [Table.get?_erase] at hp
  split at hp
  · cases hp
  · exact h j p hp

/-- Every object of the table is named and stands under its own identity. -/
def Filed (t : Table Identity α) : Prop :=
  ∀ i o, t.get? i = some o → identity o = i ∧ Named o

theorem filed_empty : Filed (Table.empty : Table Identity α) :=
  filedAs_empty Named

def WatchEvent.object? : WatchEvent α → Option α
  | .apply o | .delete o | .initApply o => some o
  | .init | .initDone => none

/-- What the lister has, and what it collects, is as `P` says and stands under its own identity. -/
structure Lister.Keeps (P : α → Prop) (l : Lister α) : Prop where
  objects : FiledAs P l.objects
  incoming : FiledAs P l.incoming

theorem Lister.keeps_empty (P : α → Prop) : Keeps P (empty : Lister α) :=
  ⟨filedAs_empty P, filedAs_empty P⟩

theorem Lister.Keeps.step {P : α → Prop} {l : Lister α} (h : l.Keeps P) {e : WatchEvent α}
    (he : ∀ o ∈ e.object?, P o) : (l.step e).Keeps P := by
  cases e with
  | apply o => exact ⟨h.objects.insert (he o rfl), h.incoming⟩
  | delete o => exact ⟨h.objects.erase _, h.incoming⟩
  | init => exact ⟨h.objects, filedAs_empty P⟩
  | initApply o => exact ⟨h.objects, h.incoming.insert (he o rfl)⟩
  | initDone => exact ⟨h.incoming, filedAs_empty P⟩

structure Lister.Indexed (l : Lister α) : Prop where
  objects : Filed l.objects
  incoming : Filed l.incoming

namespace Lister

theorem indexed_empty : Indexed (empty : Lister α) :=
  ⟨filed_empty, filed_empty⟩

theorem Indexed.step {l : Lister α} (h : l.Indexed) {e : WatchEvent α}
    (he : ∀ o ∈ e.object?, Named o) : (l.step e).Indexed := by
  have hkeeps : l.Keeps Named := ⟨h.objects, h.incoming⟩
  exact ⟨(hkeeps.step he).objects, (hkeeps.step he).incoming⟩

/-! ### Lookups by key -/

/-- Where no object lacks a namespace, none is taken for another. -/
theorem find?_of_namespaced {α : Type} {l : Lister α}
    (h : ∀ i o, l.stored? i = some o → i.ns ≠ none) (k : Key) :
    l.find? k = l.stored? k.identity := by
  refine get?_eq_stored? ?_
  cases hs : l.stored? { k.identity with ns := none } with
  | none => rfl
  | some o => exact absurd rfl (h _ o hs)

theorem find?_eq_stored? {l : Lister α} (h : l.Indexed) (k : Key) :
    l.find? k = l.stored? k.identity := by
  refine find?_of_namespaced (fun i o hs hnone => ?_) k
  obtain ⟨hi, hn⟩ := h.objects i o hs
  rw [hn.identity_eq] at hi
  exact nomatch (congrArg Identity.ns hi).trans hnone

theorem named_of_find? {l : Lister α} (h : l.Indexed) {k : Key} {o : α}
    (ho : l.find? k = some o) : Named o ∧ keyOf o = k := by
  rw [find?_eq_stored? h] at ho
  obtain ⟨hi, hn⟩ := h.objects _ _ ho
  rw [hn.identity_eq] at hi
  exact ⟨hn, Key.identity_injective hi⟩

theorem qualified_of_find? {l : Lister α} (h : l.Indexed) {k : Key} {o : α}
    (ho : l.find? k = some o) : k.Qualified := by
  obtain ⟨hn, rfl⟩ := named_of_find? h ho
  exact hn.qualified

theorem find?_step_apply {l : Lister α} (h : l.Indexed) {o : α} (ho : Named o) (k : Key) :
    (l.step (.apply o)).find? k = if k = keyOf o then some o else l.find? k := by
  have hstep : (l.step (.apply o)).Indexed := h.step fun p hp => Option.some.inj hp ▸ ho
  rw [find?_eq_stored? hstep, find?_eq_stored? h]
  split
  · rename_i hk
    rw [hk, ← ho.identity_eq]
    exact stored?_step_apply_self l o
  · rename_i hk
    refine stored?_step_apply_ne l fun hi => hk ?_
    rw [ho.identity_eq] at hi
    exact Key.identity_injective hi

theorem find?_step_delete {l : Lister α} (h : l.Indexed) {o : α} (ho : Named o) (k : Key) :
    (l.step (.delete o)).find? k = if k = keyOf o then none else l.find? k := by
  have hstep : (l.step (.delete o)).Indexed := h.step fun p hp => Option.some.inj hp ▸ ho
  rw [find?_eq_stored? hstep, find?_eq_stored? h]
  split
  · rename_i hk
    rw [hk, ← ho.identity_eq]
    exact stored?_step_delete_self l o
  · rename_i hk
    refine stored?_step_delete_ne l fun hi => hk ?_
    rw [ho.identity_eq] at hi
    exact Key.identity_injective hi

/-! ### Reports -/

theorem get?_identity {l : Lister α} {o : α} (ho : Named o) :
    l.get? (identity o) = l.find? (keyOf o) := by
  rw [ho.identity_eq]
  rfl

/-- A deletion is reported under the key of the step, whether or not the lister had the object. -/
theorem report_delete {l : Lister α} (h : l.Indexed) {o : α} (ho : Named o) :
    ∃ p, l.report (.delete o) = .change ⟨some p, none⟩ ∧ Named p ∧ keyOf p = keyOf o := by
  refine ⟨(l.get? (identity o)).getD o, rfl, ?_⟩
  rw [get?_identity ho]
  cases hf : l.find? (keyOf o) with
  | none => exact ⟨ho, rfl⟩
  | some p => exact named_of_find? h hf

end Lister

theorem objectKey_of_identity {o : α} {k : Key} (hk : k.Qualified) (h : identity o = k.identity) :
    objectKey o = k.text := by
  obtain ⟨hns, hname⟩ := Identity.mk.inj h
  -- The name of an identity is the given one; a generated one would leave it empty.
  have hgiven : (ClusterObject.metadata o).name = some k.name := by
    cases hn : (ClusterObject.metadata o).name with
    | none =>
      rw [hn] at hname
      exact absurd hname.symm hk.name_ne
    | some n =>
      rw [hn] at hname
      exact congrArg some hname
  rw [Key.text_eq_path hk, objectKey]
  exact congrArg Key.path (Named.keyOf_eq hns hgiven)

/-! ### Listers of any objects -/

/-- Every object stands under its own identity. -/
abbrev Lister.Tidy (l : Lister α) : Prop :=
  l.Keeps fun _ => True

/-- The lister does not have an object, but one of its name that has no namespace: it takes that
one for the other. -/
structure Lister.Mistakes {α : Type} (l : Lister α) (i : Identity) (p : α) : Prop where
  absent : l.stored? i = none
  present : l.stored? { i with ns := none } = some p

namespace Lister

theorem Tidy.step {l : Lister α} (h : l.Tidy) (e : WatchEvent α) : (l.step e).Tidy :=
  Keeps.step h fun _ _ => trivial

theorem Tidy.identity_eq {l : Lister α} (h : l.Tidy) {i : Identity} {o : α}
    (ho : l.stored? i = some o) : identity o = i :=
  (h.objects i o ho).1

theorem get?_of_stored? {α : Type} {l : Lister α} {i : Identity} {o : α}
    (h : l.stored? i = some o) : l.get? i = some o := by
  unfold get?
  rw [h]
  rfl

theorem Mistakes.get?_eq {α : Type} {l : Lister α} {i : Identity} {p : α}
    (hp : l.Mistakes i p) : l.get? i = some p := by
  unfold get?
  rw [hp.absent, hp.present]
  rfl

theorem get?_cases {α : Type} (l : Lister α) (i : Identity) :
    l.get? i = l.stored? i ∨ ∃ p, l.get? i = some p ∧ l.Mistakes i p := by
  unfold get?
  cases hi : l.stored? i with
  | some p => exact .inl rfl
  | none =>
    cases hp : l.stored? { i with ns := none } with
    | none => exact .inl rfl
    | some p => exact .inr ⟨p, rfl, hi, hp⟩

theorem find?_of_not_mistakes {α : Type} {l : Lister α} {k : Key}
    (h : ∀ p, ¬l.Mistakes k.identity p) : l.find? k = l.stored? k.identity := by
  rcases get?_cases l k.identity with hown | ⟨p, -, hp⟩
  · exact hown
  · exact absurd hp (h p)

theorem Mistakes.identity_ne {l : Lister α} (h : l.Tidy) {i : Identity} {p : α}
    (hp : l.Mistakes i p) : identity p ≠ i := by
  intro he
  have hi : ({ i with ns := none } : Identity) = i := (h.identity_eq hp.present).symm.trans he
  have hpresent := hp.present
  rw [hi, hp.absent] at hpresent
  cases hpresent

end Lister

end IngressCache
