import IngressCache.Proofs.Change.Window
import IngressCache.Proofs.Watch.Replica
import Mathlib.Data.List.Induction

/-!
# Replay of the lists of a snapshot

The lists of a snapshot keep the order of arrival within each list, not between them. Somebody who
replays them takes away what is listed as gone, then puts what is listed as changed and at last
what is listed as new. That leads where the changes themselves lead, for every object but those of
which an earlier change comes after the last one in this order.
-/

namespace IngressCache

/-! ### Changes of one object -/

section Changes

variable {α : Type} [ClusterObject α]

/-- The identity under which a change puts or removes an object. -/
def Change.subject? (c : Change α) : Option Identity :=
  c.latest.map identity

def changesOf (i : Identity) (cs : List (Change α)) : List (Change α) :=
  cs.filter fun c => c.subject? = some i

/-- The lists that hold a sequence of changes. -/
def Delta.of (cs : List (Change α)) : Delta α :=
  ⟨cs.filterMap Change.deleted?, cs.filterMap Change.updated?, cs.filterMap Change.added?⟩

/-- The last object of an identity. -/
def lastOf? (i : Identity) (os : List α) : Option α :=
  (os.filter fun o => identity o = i).getLast?

theorem changesOf_concat (i : Identity) (cs : List (Change α)) (c : Change α) :
    changesOf i (cs ++ [c]) =
      if c.subject? = some i then changesOf i cs ++ [c] else changesOf i cs := by
  unfold changesOf
  rw [List.filter_append]
  split <;> simp_all

theorem lastOf?_concat (i : Identity) (os : List α) (o : α) :
    lastOf? i (os ++ [o]) = if identity o = i then some o else lastOf? i os := by
  unfold lastOf?
  rw [List.filter_append]
  split <;> simp_all

/-- What a list has of an identity is what the changes of that identity brought to it. -/
theorem lastOf?_filterMap {f : Change α → Option α}
    (hf : ∀ c o, f c = some o → c.subject? = some (identity o)) (i : Identity)
    (cs : List (Change α)) :
    lastOf? i (cs.filterMap f) = ((changesOf i cs).filterMap f).getLast? := by
  unfold lastOf? changesOf
  rw [List.filter_filterMap, List.filterMap_filter]
  congr 2
  funext c
  cases hc : f c with
  | none => simp
  | some o =>
    rw [hf c o hc]
    by_cases ho : identity o = i <;> simp [ho]

theorem Change.subject?_of_deleted {c : Change α} {p : α} (h : c.deleted? = some p) :
    c.subject? = some (identity p) := by
  rcases c with ⟨_ | q, _ | o⟩
  case some.none =>
    obtain rfl := Option.some.inj h
    rfl
  all_goals cases h

theorem Change.subject?_of_updated {c : Change α} {o : α} (h : c.updated? = some o) :
    c.subject? = some (identity o) := by
  rcases c with ⟨_ | p, _ | q⟩
  case some.some =>
    obtain rfl := Option.some.inj h
    rfl
  all_goals cases h

theorem Change.subject?_of_added {c : Change α} {o : α} (h : c.added? = some o) :
    c.subject? = some (identity o) := by
  rcases c with ⟨_ | p, _ | q⟩
  case none.some =>
    obtain rfl := Option.some.inj h
    rfl
  all_goals cases h

end Changes

namespace Replica

variable {α : Type} [ClusterObject α]

def put (r : Replica α) (o : α) : Replica α :=
  Function.update r (identity o) (some o)

def remove (r : Replica α) (p : α) : Replica α :=
  Function.update r (identity p) none

/-- The replica after the lists of a snapshot, in the order in which the snapshot describes them. -/
def replay (r : Replica α) (d : Delta α) : Replica α :=
  d.add.foldl put (d.upd.foldl put (d.del.foldl remove r))

theorem foldl_put (r : Replica α) (os : List α) (i : Identity) :
    os.foldl put r i = (lastOf? i os).or (r i) := by
  induction os using List.reverseRecOn with
  | nil => rfl
  | append_singleton os o ih =>
    rw [List.foldl_append, List.foldl_cons, List.foldl_nil, lastOf?_concat, put]
    by_cases hi : identity o = i
    · rw [if_pos hi, ← hi, Function.update_self]
      rfl
    · rw [if_neg hi, Function.update_of_ne (Ne.symm hi), ih]

theorem foldl_remove (r : Replica α) (ps : List α) (i : Identity) :
    ps.foldl remove r i = if (lastOf? i ps).isSome then none else r i := by
  induction ps using List.reverseRecOn with
  | nil => rfl
  | append_singleton ps p ih =>
    rw [List.foldl_append, List.foldl_cons, List.foldl_nil, lastOf?_concat, remove]
    by_cases hi : identity p = i
    · rw [if_pos hi, ← hi, Function.update_self]
      rfl
    · rw [if_neg hi, Function.update_of_ne (Ne.symm hi), ih]

/-- After a replay the last addition of an object counts, else its last update, else that it is
among the deletions. -/
theorem replay_of (r : Replica α) (cs : List (Change α)) (i : Identity) :
    r.replay (.of cs) i =
      (((changesOf i cs).filterMap Change.added?).getLast?).or
        ((((changesOf i cs).filterMap Change.updated?).getLast?).or
          (if (((changesOf i cs).filterMap Change.deleted?).getLast?).isSome then none
            else r i)) := by
  rw [replay, foldl_put, foldl_put, foldl_remove, Delta.of,
    lastOf?_filterMap (fun _ _ => Change.subject?_of_added),
    lastOf?_filterMap (fun _ _ => Change.subject?_of_updated),
    lastOf?_filterMap (fun _ _ => Change.subject?_of_deleted)]

theorem apply_eq (r : Replica α) (c : Change α) (i : Identity) :
    r.apply c i = if c.subject? = some i then c.current else r i := by
  rcases c with ⟨_ | p, _ | o⟩
  case none.none => rfl
  case some.none =>
    rw [apply_removed]
    by_cases hi : identity p = i <;> simp [Change.subject?, Change.latest, hi, Function.update_apply]
    exact fun he => absurd he.symm hi
  case none.some | some.some =>
    rw [apply_put]
    by_cases hi : identity o = i <;> simp [Change.subject?, Change.latest, hi, Function.update_apply]
    exact fun he => absurd he.symm hi

/-- After the changes themselves the last one of an object counts. -/
theorem foldl_apply (r : Replica α) (cs : List (Change α)) (i : Identity) :
    cs.foldl apply r i =
      match (changesOf i cs).getLast? with
      | some c => c.current
      | none => r i := by
  induction cs using List.reverseRecOn with
  | nil => rfl
  | append_singleton cs c ih =>
    rw [List.foldl_append, List.foldl_cons, List.foldl_nil, apply_eq, changesOf_concat]
    by_cases hc : c.subject? = some i
    · simp [hc]
    · simp only [if_neg hc]
      exact ih

end Replica

/-! ### Overtaken changes -/

section Overtaken

variable {α : Type}

/-- The last change of an object is overtaken when the lists are replayed. -/
inductive Overtaken : List (Change α) → Prop
  /-- The object is gone at last, and one of the lists that come later has it. -/
  | gone {cs : List (Change α)} {c : Change α} {p o : α} (hc : c ∈ cs)
      (ho : c.current = some o) : Overtaken (cs ++ [⟨some p, none⟩])
  /-- The object is changed at last, and its last addition brings it in another state. -/
  | changed {cs : List (Change α)} {p o q : α}
      (hq : (cs.filterMap Change.added?).getLast? = some q) (hne : q ≠ o) :
      Overtaken (cs ++ [⟨some p, some o⟩])

theorem not_overtaken_nil : ¬Overtaken ([] : List (Change α)) := by
  intro h
  generalize hcs : ([] : List (Change α)) = cs at h
  cases h <;> exact absurd hcs (by simp)

theorem overtaken_deleted_iff (cs : List (Change α)) (p : α) :
    Overtaken (cs ++ [⟨some p, none⟩]) ↔ ∃ c ∈ cs, c.current ≠ none := by
  constructor
  · generalize hl : cs ++ [⟨some p, none⟩] = l
    rintro (⟨hc, ho⟩ | ⟨hq, hne⟩)
    · obtain ⟨rfl, -⟩ := List.append_inj' hl rfl
      exact ⟨_, hc, by simp [ho]⟩
    · obtain ⟨-, hlast⟩ := List.append_inj' hl rfl
      cases hlast
  · rintro ⟨c, hc, hsome⟩
    obtain ⟨o, ho⟩ := Option.ne_none_iff_exists'.1 hsome
    exact .gone hc ho

theorem overtaken_updated_iff (cs : List (Change α)) (p o : α) :
    Overtaken (cs ++ [⟨some p, some o⟩]) ↔
      ∃ q, (cs.filterMap Change.added?).getLast? = some q ∧ q ≠ o := by
  constructor
  · generalize hl : cs ++ [⟨some p, some o⟩] = l
    rintro (⟨hc, ho⟩ | ⟨hq, hne⟩)
    · obtain ⟨-, hlast⟩ := List.append_inj' hl rfl
      cases hlast
    · obtain ⟨rfl, hlast⟩ := List.append_inj' hl rfl
      cases hlast
      exact ⟨_, hq, hne⟩
  · rintro ⟨q, hq, hne⟩
    exact .changed hq hne

theorem not_overtaken_added (cs : List (Change α)) (o : α) :
    ¬Overtaken (cs ++ [⟨none, some o⟩]) := by
  generalize hl : cs ++ [⟨none, some o⟩] = l
  rintro (⟨hc, ho⟩ | ⟨hq, hne⟩)
  all_goals
    obtain ⟨-, hlast⟩ := List.append_inj' hl rfl
    cases hlast

/-- The lists have put an object exactly if some change did. -/
theorem lists_eq_none_iff (cs : List (Change α)) :
    (((cs.filterMap Change.added?).getLast?).or
      ((cs.filterMap Change.updated?).getLast?)) = none ↔
      ¬∃ c ∈ cs, c.current ≠ none := by
  rw [Option.or_eq_none_iff, List.getLast?_eq_none_iff, List.getLast?_eq_none_iff,
    List.filterMap_eq_nil_iff, List.filterMap_eq_nil_iff]
  constructor
  · rintro ⟨hadd, hupd⟩ ⟨c, hc, hsome⟩
    have ha := hadd c hc
    have hu := hupd c hc
    rcases c with ⟨_ | p, _ | o⟩
    case none.some => cases ha
    case some.some => cases hu
    all_goals exact hsome rfl
  · intro hnone
    have hcurrent : ∀ c ∈ cs, c.current = none := by
      intro c hc
      by_contra hsome
      exact hnone ⟨c, hc, hsome⟩
    refine ⟨fun c hc => ?_, fun c hc => ?_⟩
    all_goals
      have hc' := hcurrent c hc
      rcases c with ⟨_ | p, _ | o⟩ <;> first | rfl | cases hc'

end Overtaken

/-- A replay leads to the object that the changes lead to, exactly if its last change is not
overtaken. -/
theorem Replica.replay_eq_iff {α : Type} [ClusterObject α] (r : Replica α)
    (cs : List (Change α)) (i : Identity) :
    r.replay (.of cs) i = cs.foldl apply r i ↔ ¬Overtaken (changesOf i cs) := by
  rw [replay_of, foldl_apply]
  have hsubject : ∀ c ∈ changesOf i cs, c.subject? = some i := by
    intro c hc
    simpa using (List.mem_filter.1 hc).2
  generalize changesOf i cs = xs at hsubject
  rcases List.eq_nil_or_concat xs with rfl | ⟨ys, c, rfl⟩
  · exact iff_of_true rfl not_overtaken_nil
  · rw [List.concat_eq_append] at hsubject ⊢
    rw [List.getLast?_concat, filterMap_concat, filterMap_concat, filterMap_concat]
    rcases c with ⟨_ | p, _ | o⟩
    case none.none => cases hsubject _ (List.mem_append_right _ List.mem_cons_self)
    case some.none =>
      rw [overtaken_deleted_iff, ← lists_eq_none_iff]
      simp [Change.added?, Change.updated?, Change.deleted?]
    case none.some =>
      refine iff_of_true ?_ (not_overtaken_added _ _)
      simp [Change.added?]
    case some.some =>
      rw [overtaken_updated_iff]
      cases hadd : (ys.filterMap Change.added?).getLast? <;>
        simp [Change.added?, Change.updated?, hadd]

end IngressCache
