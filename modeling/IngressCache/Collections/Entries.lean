/-!
# Lists of entries

Lists of keys with values, read through `List.lookup`, which finds the first entry of a key.
-/

namespace IngressCache.Entries

universe u v

variable {κ : Type u} {β : Type v} [DecidableEq κ]

/-- Entries whose key is not `k`. -/
def without (k : κ) (l : List (κ × β)) : List (κ × β) :=
  l.filter fun e => e.1 ≠ k

theorem without_sublist (k : κ) (l : List (κ × β)) : (without k l).Sublist l :=
  List.filter_sublist

theorem not_mem_without (k : κ) (l : List (κ × β)) : k ∉ (without k l).map Prod.fst := by
  simp [without]

theorem lookup_cons_ne {k k' : κ} (h : k' ≠ k) (v : β) (l : List (κ × β)) :
    List.lookup k' ((k, v) :: l) = l.lookup k' := by
  have hb : (k' == k) = false := by simpa using h
  simp [List.lookup_cons, hb]

theorem lookup_without_self (k : κ) (l : List (κ × β)) : (without k l).lookup k = none := by
  induction l with
  | nil => rfl
  | cons e l ih =>
    rcases e with ⟨a, v⟩
    by_cases h : a = k
    · simpa [without, h] using ih
    · have hw : without k ((a, v) :: l) = (a, v) :: without k l := by simp [without, h]
      rw [hw, lookup_cons_ne (fun e => h e.symm), ih]

theorem lookup_without_ne {k k' : κ} (h : k' ≠ k) (l : List (κ × β)) :
    (without k l).lookup k' = l.lookup k' := by
  induction l with
  | nil => rfl
  | cons e l ih =>
    rcases e with ⟨a, v⟩
    by_cases ha : a = k
    · have hw : without k ((a, v) :: l) = without k l := by simp [without, ha]
      rw [hw, ih, lookup_cons_ne (fun e => h (e.trans ha))]
    · have hw : without k ((a, v) :: l) = (a, v) :: without k l := by simp [without, ha]
      rw [hw]
      by_cases hk : k' = a
      · simp [hk]
      · rw [lookup_cons_ne hk, lookup_cons_ne hk, ih]

end IngressCache.Entries
