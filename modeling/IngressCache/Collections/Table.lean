import IngressCache.Collections.Entries

/-!
# Tables

Finite maps from keys with decidable equality, at most one entry for each key. A table is read
through `get?`; each operation comes with its effect on that view.
-/

namespace IngressCache

universe u v

/-- A finite map. The entry that was written last comes first. -/
structure Table (κ : Type u) (β : Type v) where
  entries : List (κ × β)
  nodup : (entries.map Prod.fst).Nodup

namespace Table

variable {κ : Type u} {β : Type v} [DecidableEq κ]

def empty : Table κ β :=
  ⟨[], List.nodup_nil⟩

instance : Inhabited (Table κ β) :=
  ⟨empty⟩

def get? (t : Table κ β) (k : κ) : Option β :=
  t.entries.lookup k

def contains (t : Table κ β) (k : κ) : Bool :=
  (t.get? k).isSome

def keys (t : Table κ β) : List κ :=
  t.entries.map Prod.fst

def values (t : Table κ β) : List β :=
  t.entries.map Prod.snd

def size (t : Table κ β) : Nat :=
  t.entries.length

def erase (t : Table κ β) (k : κ) : Table κ β :=
  ⟨Entries.without k t.entries, t.nodup.sublist ((Entries.without_sublist k _).map _)⟩

def insert (t : Table κ β) (k : κ) (v : β) : Table κ β :=
  ⟨(k, v) :: (t.erase k).entries,
    List.nodup_cons.2 ⟨Entries.not_mem_without k t.entries, (t.erase k).nodup⟩⟩

/-- The table of a list of entries; of two entries of one key the later one stays. -/
def ofList (l : List (κ × β)) : Table κ β :=
  l.foldl (fun t e => t.insert e.1 e.2) empty

/-! ### Reading after writing -/

@[simp] theorem get?_empty (k : κ) : (empty : Table κ β).get? k = none := rfl

@[simp] theorem get?_erase_self (t : Table κ β) (k : κ) : (t.erase k).get? k = none :=
  Entries.lookup_without_self k t.entries

theorem get?_erase_ne {k k' : κ} (h : k' ≠ k) (t : Table κ β) :
    (t.erase k).get? k' = t.get? k' :=
  Entries.lookup_without_ne h t.entries

@[simp] theorem get?_insert_self (t : Table κ β) (k : κ) (v : β) :
    (t.insert k v).get? k = some v := by
  simp [insert, get?]

theorem get?_insert_ne {k k' : κ} (h : k' ≠ k) (t : Table κ β) (v : β) :
    (t.insert k v).get? k' = t.get? k' :=
  (Entries.lookup_cons_ne h v _).trans (get?_erase_ne h t)

theorem get?_insert (t : Table κ β) (k k' : κ) (v : β) :
    (t.insert k v).get? k' = if k' = k then some v else t.get? k' := by
  split
  · rename_i h
    rw [h, get?_insert_self]
  · rename_i h
    exact get?_insert_ne h t v

theorem get?_erase (t : Table κ β) (k k' : κ) :
    (t.erase k).get? k' = if k' = k then none else t.get? k' := by
  split
  · rename_i h
    rw [h, get?_erase_self]
  · rename_i h
    exact get?_erase_ne h t

theorem mem_keys {t : Table κ β} {k : κ} : k ∈ t.keys ↔ ∃ v, t.get? k = some v := by
  rw [← Option.ne_none_iff_exists', get?, ne_eq, List.lookup_eq_none_iff]
  simp [keys]

end Table

end IngressCache
