import IngressCache.Proofs.Watch.Replica

/-!
# Ingresses in the list and by key

The ingresses of the controller are listed all together, or looked up one by one under written
keys. Where every object of the lister has a namespace and a name without a slash, the two agree: a
key that can be read finds what the list has of its namespace and name, and nothing else. An empty
namespace counts as one.
-/

namespace IngressCache

/-! ### Objects and their keys -/

section
variable {α : Type} [ClusterObject α]

/-- The object has the namespace and the name of the key, none of them left out. -/
structure HasKey (o : α) (k : Key) : Prop where
  ns : (ClusterObject.metadata o).ns = some k.ns
  name : (ClusterObject.metadata o).name = some k.name

instance (o : α) (k : Key) : Decidable (HasKey o k) :=
  decidable_of_iff ((ClusterObject.metadata o).ns = some k.ns ∧
    (ClusterObject.metadata o).name = some k.name) ⟨fun h => ⟨h.1, h.2⟩, fun h => ⟨h.1, h.2⟩⟩

/-- An object whose written key can be taken apart again. -/
def Addressed (o : α) : Prop :=
  ∃ k : Key, k.Legible ∧ HasKey o k

theorem HasKey.identity_eq {o : α} {k : Key} (h : HasKey o k) : identity o = k.identity := by
  simp only [identity, Key.identity, h.ns, h.name, Option.getD_some]

theorem HasKey.objectKey_eq {o : α} {k : Key} (h : HasKey o k) : objectKey o = k.path :=
  congrArg Key.path (Named.keyOf_eq h.ns h.name)

theorem Addressed.hasKey_of_identity {o : α} (h : Addressed o) {k : Key}
    (hi : identity o = k.identity) : HasKey o k := by
  obtain ⟨j, -, hj⟩ := h
  rw [hj.identity_eq] at hi
  exact Key.identity_injective hi ▸ hj

end

/-! ### Listers of addressed objects -/

namespace Lister

variable {α : Type} [ClusterObject α] {l : Lister α}

theorem mem_toList_iff (h : l.Tidy) (o : α) :
    o ∈ l.toList ↔ l.stored? (identity o) = some o := by
  unfold toList Table.values
  constructor
  · intro ho
    obtain ⟨e, he, rfl⟩ := List.mem_map.1 ho
    have hstored : l.stored? e.1 = some e.2 := Entries.lookup_of_mem l.objects.nodup he
    rw [h.identity_eq hstored]
    exact hstored
  · intro ho
    obtain ⟨before, after, hsplit, -⟩ := List.lookup_eq_some_iff.1 ho
    rw [hsplit]
    simp

theorem find?_eq_some_iff (h : l.Tidy) (haddressed : ∀ o ∈ l.toList, Addressed o) (k : Key)
    (o : α) : l.find? k = some o ↔ o ∈ l.toList ∧ HasKey o k := by
  have hlisted : ∀ {i p}, l.stored? i = some p → p ∈ l.toList ∧ identity p = i := by
    intro i p hp
    have hi := h.identity_eq hp
    exact ⟨(mem_toList_iff h p).2 (hi.symm ▸ hp), hi⟩
  -- No listed object lacks a namespace, so the lookup finds what stands under the key itself.
  have hfind : l.find? k = l.stored? k.identity := by
    refine find?_of_namespaced (fun i p hs hnone => ?_) k
    obtain ⟨hp, hi⟩ := hlisted hs
    obtain ⟨j, -, hj⟩ := haddressed p hp
    exact nomatch (hj.ns.symm.trans (congrArg Identity.ns hi)).trans hnone
  rw [hfind]
  constructor
  · intro ho
    obtain ⟨hmem, hi⟩ := hlisted ho
    exact ⟨hmem, (haddressed o hmem).hasKey_of_identity hi⟩
  · rintro ⟨hmem, hkey⟩
    rw [← hkey.identity_eq]
    exact (mem_toList_iff h o).1 hmem

theorem lookup_of_parse (l : Lister α) {text : String} {k : Key} (h : Key.parse text = .ok k) :
    l.lookup text = match l.find? k with
      | some o => .ok o
      | none => .error (.notFound (ClusterObject.kind α) k.text) := by
  unfold lookup Key.require
  rw [h]
  rfl

end Lister

/-! ### The two ways -/

namespace ClassFilter

theorem ingress_of_parse (f : ClassFilter) (l : Lister Ingress) {text : String} {k : Key}
    (h : Key.parse text = .ok k) :
    f.ingress l text = match l.find? k with
      | none => .error (.notFound .ingress k.text)
      | some i => if f.accepts i = true then .ok i
          else .error (.malformed "ingress class does not match") := by
  unfold ingress
  rw [Lister.lookup_of_parse l h]
  cases l.find? k <;> rfl

section
variable (f : ClassFilter) {l : Lister Ingress} {text : String} {k : Key}

/-- The three answers to a key that can be read. -/
theorem ingress_eq_iff (h : Key.parse text = .ok k) :
    (∀ i, f.ingress l text = .ok i ↔ l.find? k = some i ∧ f.accepts i = true) ∧
      (f.ingress l text = .error (.malformed "ingress class does not match") ↔
        ∃ i, l.find? k = some i ∧ f.accepts i = false) ∧
      (f.ingress l text = .error (.notFound .ingress k.text) ↔ l.find? k = none) := by
  rw [ingress_of_parse f l h]
  cases l.find? k with
  | none => simp
  | some j =>
    cases hj : f.accepts j with
    | true =>
      simp only [hj, if_true, Except.ok.injEq, Option.some.injEq]
      exact ⟨fun i => ⟨fun hi => ⟨hi, hi ▸ hj⟩, And.left⟩, by simp [hj], by simp⟩
    | false =>
      simp only [hj, Bool.false_eq_true, if_false, Option.some.injEq]
      refine ⟨fun i => ⟨fun hi => (nomatch hi), fun hi => ?_⟩, by simp [hj], by simp⟩
      exact absurd (hi.1 ▸ hi.2) (Bool.eq_false_iff.1 hj)

end

/-- Whatever a watch has brought to the lister, and whatever the class of the controller is: as long
as all objects there have a namespace and a name that make a readable key, a lookup answers an
ingress exactly if the list has it under the namespace and name of the key. It fails because of the
class exactly if the lister has such an ingress of another class, and finds nothing exactly if it
has none. Every listed ingress is answered under its own key. -/
theorem ingress_eq_ok_iff_listed (f : ClassFilter) (es : List (WatchEvent Ingress))
    (haddressed : ∀ i ∈ (es.foldl Lister.step .empty).toList, Addressed i) :
    let l := es.foldl Lister.step .empty
    (∀ text k, Key.parse text = .ok k →
      (∀ i, f.ingress l text = .ok i ↔ i ∈ f.ingresses l ∧ HasKey i k) ∧
      (f.ingress l text = .error (.malformed "ingress class does not match") ↔
        ∃ i ∈ l.toList, HasKey i k ∧ i ∉ f.ingresses l) ∧
      (f.ingress l text = .error (.notFound .ingress k.text) ↔ ∀ i ∈ l.toList, ¬HasKey i k)) ∧
    ∀ i ∈ f.ingresses l, f.ingress l (objectKey i) = .ok i := by
  intro l
  have htidy : l.Tidy := Lister.tidy_foldl (Lister.keeps_empty _) es
  have hfind := fun k i => Lister.find?_eq_some_iff htidy haddressed k i
  have hmine : ∀ i, i ∈ f.ingresses l ↔ i ∈ l.toList ∧ f.accepts i = true :=
    fun i => List.mem_filter
  have hanswers : ∀ text k, Key.parse text = .ok k → ∀ i,
      f.ingress l text = .ok i ↔ i ∈ f.ingresses l ∧ HasKey i k := by
    intro text k hk i
    rw [(f.ingress_eq_iff hk).1, hmine, hfind, and_right_comm]
  refine ⟨fun text k hk => ⟨hanswers text k hk, ?_, ?_⟩, fun i hi => ?_⟩
  · rw [(f.ingress_eq_iff hk).2.1]
    refine exists_congr fun i => ?_
    rw [hfind, hmine, and_assoc]
    refine and_congr_right fun hlisted => and_congr_right fun _ => ?_
    rw [not_and, Bool.not_eq_true]
    exact ⟨fun hn _ => hn, fun hn => hn hlisted⟩
  · rw [(f.ingress_eq_iff hk).2.2, Option.eq_none_iff_forall_ne_some]
    exact forall_congr' fun i => by rw [ne_eq, hfind, not_and]
  · obtain ⟨k, hk, hkey⟩ := haddressed i ((hmine i).1 hi).1
    rw [hkey.objectKey_eq]
    exact (hanswers _ k (Key.parse_path hk) i).2 ⟨hi, hkey⟩

/-- Two namesakes, one in the empty namespace, and an ingress that names no class. -/
theorem ingress_eq_ok_iff_listed_of_namesakes :
    let own : Ingress := ⟨.ofKey ⟨"", "web"⟩, some ⟨some "haul"⟩⟩
    let other : Ingress := ⟨.ofKey ⟨"default", "web"⟩, some ⟨some "edge"⟩⟩
    let classless : Ingress := ⟨.ofKey ⟨"default", "api"⟩, none⟩
    let f : ClassFilter := ⟨"haul", false⟩
    let l := [WatchEvent.apply own, .apply other, .apply classless].foldl Lister.step .empty
    (∀ i ∈ l.toList, Addressed i) ∧ f.ingress l "web" = .ok own ∧
      f.ingress l "default/web" = .error (.malformed "ingress class does not match") ∧
      f.ingress l "other/api" = .error (.notFound .ingress "other/api") ∧
      f.ingress l (objectKey own) = .ok own := by
  intro own other classless f l
  have haddressed : ∀ i ∈ l.toList, Addressed i := by
    have hof : ∀ k : Key, k.Legible → ∀ spec, Addressed (Ingress.mk (.ofKey k) spec) :=
      fun k hk _ => ⟨k, hk, rfl, rfl⟩
    intro i hi
    have hcases : i = classless ∨ i = other ∨ i = own := by
      simpa using (show i ∈ [classless, other, own] from hi)
    rcases hcases with rfl | rfl | rfl
    · exact hof ⟨"default", "api"⟩ (by decide) none
    · exact hof ⟨"default", "web"⟩ (by decide) (some ⟨some "edge"⟩)
    · exact hof ⟨"", "web"⟩ (by decide) (some ⟨some "haul"⟩)
  obtain ⟨hkeys, hown⟩ := ingress_eq_ok_iff_listed f
    [.apply own, .apply other, .apply classless] haddressed
  refine ⟨haddressed, ?_, ?_, ?_, ?_⟩
  · exact ((hkeys "web" ⟨"", "web"⟩ rfl).1 own).2 ⟨by decide, by decide⟩
  · exact (hkeys "default/web" ⟨"default", "web"⟩ rfl).2.1.2
      ⟨other, by decide, by decide, by decide⟩
  · exact (hkeys "other/api" ⟨"other", "api"⟩ rfl).2.2.2 (by decide)
  · exact hown own (by decide)

end ClassFilter

end IngressCache
