import IngressCache.Proofs.Material.Files

/-!
# Names of files taken apart

The name of a file joins namespace, name and role of a secret with underscores. Where namespace
and name have none, the name of the file says which secret and which role it belongs to.
-/

namespace IngressCache

namespace Key

/-- Neither part has the character that joins them in the name of a file. -/
structure Simple (k : Key) : Prop extends Legible k where
  ns_joined : '_' ∉ k.ns.toList
  name_joined : '_' ∉ k.name.toList

theorem simple_iff (k : Key) :
    k.Simple ↔ k.Legible ∧ '_' ∉ k.ns.toList ∧ '_' ∉ k.name.toList :=
  ⟨fun h => ⟨h.toLegible, h.ns_joined, h.name_joined⟩, fun h => ⟨h.1, h.2.1, h.2.2⟩⟩

instance (k : Key) : Decidable k.Simple := decidable_of_iff' _ (simple_iff k)

/-- What follows the stem in the names of the three files. -/
def fileSuffixes : List String :=
  [".pem", "_ca.pem", "_crl.pem"]

theorem exists_suffix_of_mem_files {k : Key} {f : String} (h : f ∈ k.files) :
    ∃ s ∈ fileSuffixes, f = k.fileStem ++ s := by
  simp only [files, List.mem_cons, List.not_mem_nil, or_false] at h
  rcases h with rfl | rfl | rfl
  · exact ⟨".pem", by decide, rfl⟩
  · exact ⟨"_ca.pem", by decide, rfl⟩
  · exact ⟨"_crl.pem", by decide, rfl⟩

theorem toList_fileStem_append (k : Key) (s : String) :
    (k.fileStem ++ s).toList = k.ns.toList ++ '_' :: (k.name.toList ++ s.toList) := by
  simp [fileStem, String.toList_append]

def beforeJoint (s : List Char) : List Char :=
  s.takeWhile (· ≠ '_')

def fromJoint (s : List Char) : List Char :=
  s.dropWhile (· ≠ '_')

theorem beforeJoint_append {p : List Char} (h : '_' ∉ p) (s : List Char) :
    beforeJoint (p ++ '_' :: s) = p := by
  rw [beforeJoint, List.takeWhile_append_of_pos (forall_ne_of_not_mem h),
    List.takeWhile_cons_of_neg (by simp), List.append_nil]

theorem fromJoint_append {p : List Char} (h : '_' ∉ p) (s : List Char) :
    fromJoint (p ++ s) = fromJoint s :=
  List.dropWhile_append_of_pos (forall_ne_of_not_mem h)

/-- The roles differ in what follows the next joint of the name. -/
theorem suffix_eq_of_fromJoint_eq : ∀ s ∈ fileSuffixes, ∀ t ∈ fileSuffixes,
    fromJoint s.toList = fromJoint t.toList → s = t := by
  decide

/-- A file belongs to one secret. -/
theorem eq_of_mem_files {j k : Key} (hj : j.Simple) (hk : k.Simple) {f : String}
    (hfj : f ∈ j.files) (hfk : f ∈ k.files) : j = k := by
  obtain ⟨s, hs, rfl⟩ := exists_suffix_of_mem_files hfj
  obtain ⟨t, ht, heq⟩ := exists_suffix_of_mem_files hfk
  have hlist := congrArg String.toList heq
  rw [toList_fileStem_append, toList_fileStem_append] at hlist
  have hns : j.ns.toList = k.ns.toList := by
    have h := congrArg beforeJoint hlist
    rwa [beforeJoint_append hj.ns_joined, beforeJoint_append hk.ns_joined] at h
  rw [hns] at hlist
  have hrest := (List.cons.inj (List.append_cancel_left hlist)).2
  have hst : s = t := by
    have h := congrArg fromJoint hrest
    rw [fromJoint_append hj.name_joined, fromJoint_append hk.name_joined] at h
    exact suffix_eq_of_fromJoint_eq s hs t ht h
  rw [hst] at hrest
  have hname := List.append_cancel_right hrest
  cases j
  cases k
  cases String.toList_inj.1 hns
  cases String.toList_inj.1 hname
  rfl

end Key

end IngressCache
