import IngressCache.Collections.Entries

/-!
# Dictionaries

Finite maps from texts whose entries are kept in the order of the keys. Two dictionaries are
equal as soon as they give the same value for every key.
-/

namespace IngressCache

universe u

structure Dict (β : Type u) where
  entries : List (String × β)
  sorted : entries.Pairwise fun a b => a.1 < b.1
  deriving DecidableEq

namespace Dict

variable {β : Type u}

/-! ### Sorted lists of entries -/

def put (k : String) (v : β) : List (String × β) → List (String × β)
  | [] => [(k, v)]
  | (k', v') :: rest =>
    if k < k' then (k, v) :: (k', v') :: rest
    else if k = k' then (k, v) :: rest
    else (k', v') :: put k v rest

theorem mem_put {k : String} {v : β} {e : String × β} {l : List (String × β)}
    (h : e ∈ put k v l) : e = (k, v) ∨ e ∈ l := by
  induction l with
  | nil => simpa [put] using h
  | cons a l ih =>
    rcases a with ⟨k', v'⟩
    unfold put at h
    split at h
    · simpa using h
    split at h
    · rcases List.mem_cons.1 h with h | h
      · exact .inl h
      · exact .inr (List.mem_cons_of_mem _ h)
    · rcases List.mem_cons.1 h with h | h
      · exact .inr (by simp [h])
      · exact (ih h).imp id (List.mem_cons_of_mem _)

theorem lt_of_not_lt_of_ne {a b : String} (h : ¬a < b) (hne : a ≠ b) : b < a :=
  Classical.byContradiction fun h' =>
    hne (String.le_antisymm (String.not_lt.1 h') (String.not_lt.1 h))

theorem sorted_put (k : String) (v : β) {l : List (String × β)}
    (h : l.Pairwise fun a b => a.1 < b.1) : (put k v l).Pairwise fun a b => a.1 < b.1 := by
  induction l with
  | nil => simp [put]
  | cons a l ih =>
    rcases a with ⟨k', v'⟩
    have hl := List.pairwise_cons.1 h
    unfold put
    split
    · rename_i hk
      refine List.pairwise_cons.2 ⟨fun e he => ?_, h⟩
      rcases List.mem_cons.1 he with he | he
      · simpa [he] using hk
      · exact String.lt_trans hk (hl.1 e he)
    split
    · rename_i hk
      exact List.pairwise_cons.2 ⟨fun e he => by simpa [hk] using hl.1 e he, hl.2⟩
    · rename_i hlt hne
      refine List.pairwise_cons.2 ⟨fun e he => ?_, ih hl.2⟩
      rcases mem_put he with he | he
      · simpa [he] using lt_of_not_lt_of_ne hlt hne
      · exact hl.1 e he

theorem lookup_put_self (k : String) (v : β) (l : List (String × β)) :
    (put k v l).lookup k = some v := by
  induction l with
  | nil => simp [put]
  | cons a l ih =>
    rcases a with ⟨k', v'⟩
    unfold put
    split
    · simp
    split
    · simp
    · rename_i hne
      have hb : (k == k') = false := by simpa using hne
      simpa [List.lookup_cons, hb] using ih

theorem lookup_put_ne {k k' : String} (h : k' ≠ k) (v : β) (l : List (String × β)) :
    (put k v l).lookup k' = l.lookup k' := by
  have hb : (k' == k) = false := by simpa using h
  induction l with
  | nil => simp [put, List.lookup_cons, hb]
  | cons a l ih =>
    rcases a with ⟨a, w⟩
    unfold put
    split
    · simp [List.lookup_cons, hb]
    split
    · rename_i ha
      have ha' : (k' == a) = false := by simpa [← ha] using h
      simp [List.lookup_cons, hb, ha']
    · by_cases hk : k' = a
      · simp [hk]
      · have ha' : (k' == a) = false := by simpa using hk
        simpa [List.lookup_cons, ha'] using ih

/-! ### Dictionaries -/

def empty : Dict β :=
  ⟨[], List.Pairwise.nil⟩

instance : Inhabited (Dict β) :=
  ⟨empty⟩

def get? (d : Dict β) (k : String) : Option β :=
  d.entries.lookup k

def insert (d : Dict β) (k : String) (v : β) : Dict β :=
  ⟨put k v d.entries, sorted_put k v d.sorted⟩

def erase (d : Dict β) (k : String) : Dict β :=
  ⟨Entries.without k d.entries, d.sorted.sublist (Entries.without_sublist k _)⟩

/-- The dictionary of a list of entries; of two entries of one key the later one stays. -/
def ofList (l : List (String × β)) : Dict β :=
  l.foldl (fun d e => d.insert e.1 e.2) empty

def toList (d : Dict β) : List (String × β) :=
  d.entries

/-! ### Reading after writing -/

@[simp] theorem get?_empty (k : String) : (empty : Dict β).get? k = none := rfl

@[simp] theorem get?_insert_self (d : Dict β) (k : String) (v : β) :
    (d.insert k v).get? k = some v :=
  lookup_put_self k v d.entries

theorem get?_insert_ne {k k' : String} (h : k' ≠ k) (d : Dict β) (v : β) :
    (d.insert k v).get? k' = d.get? k' :=
  lookup_put_ne h v d.entries

@[simp] theorem get?_erase_self (d : Dict β) (k : String) : (d.erase k).get? k = none :=
  Entries.lookup_without_self k d.entries

theorem get?_erase_ne {k k' : String} (h : k' ≠ k) (d : Dict β) :
    (d.erase k).get? k' = d.get? k' :=
  Entries.lookup_without_ne h d.entries

end Dict

end IngressCache
