import IngressCache.Object.Lookup
import IngressCache.Proofs.Change.Window
import IngressCache.Proofs.Object.Listed
import Mathlib.Logic.Function.Basic

/-!
# Replicas of listers

Somebody who follows the events of a watch keeps a replica of the objects that are of interest. It
is what the lister lists after every step, and every change shows the object as the replica had it,
unless the lister takes another object for the one of the step: a lookup that finds nothing in a
namespace finds the object of that name that has none.
-/

namespace IngressCache

/-! ### Objects of interest -/

/-- The objects of a kind that its watch hands on: ingresses of the controller, tracked config
maps, and everything of the other kinds. -/
def ofInterest (f : ClassFilter) (t : TrackedKeys) : (k : Kind) → k.Object → Bool
  | .ingress, o => f.accepts o
  | .configMap, o => t.tracks (objectKey o)
  | .service, _ | .endpoints, _ | .secret, _ | .pod, _ => true

def listed (f : ClassFilter) (t : TrackedKeys) : (k : Kind) → Lister k.Object → List k.Object
  | .ingress, l => f.ingresses l
  | .configMap, l => l.toList.filter fun m => t.tracks (objectKey m)
  | .service, l | .endpoints, l | .secret, l | .pod, l => l.toList

theorem listed_eq (f : ClassFilter) (t : TrackedKeys) (k : Kind) (l : Lister k.Object) :
    listed f t k l = l.toList.filter (ofInterest f t k) := by
  cases k with
  | ingress => rfl
  | configMap => rfl
  | _ => exact (List.filter_eq_self.2 fun _ _ => rfl).symm

/-! ### Replicas -/

/-- The objects of one kind as somebody knows them, each under its identity. -/
abbrev Replica (α : Type) := Identity → Option α

namespace Replica

variable {α : Type} [ClusterObject α]

def of (os : List α) : Replica α :=
  fun i => os.find? fun o => identity o = i

/-- The replica after a change: what was added or updated is put, what was deleted is removed. -/
def apply (r : Replica α) (c : Change α) : Replica α :=
  match c.classify with
  | .added o | .updated _ o => Function.update r (identity o) (some o)
  | .deleted p => Function.update r (identity p) none
  | .unclassified => r

/-- The change shows the object before it as the replica has it. Only the deletion of an object
that the replica does not have may show more. -/
structure Expects (r : Replica α) (c : Change α) : Prop where
  before : ∀ o, c.current = some o → c.old = r (identity o)
  deleted : ∀ p q, c = ⟨some p, none⟩ → r (identity p) = some q → q = p

/-- The replica after an event; a resync has it copied from what is listed. -/
def receive {k : Kind} (os : List k.Object) (r : Replica k.Object) (e : Event) :
    Replica k.Object :=
  match e, e.change? k with
  | .resync, _ => of os
  | _, some c => r.apply c
  | _, none => r

theorem apply_put (r : Replica α) (old : Option α) (o : α) :
    r.apply ⟨old, some o⟩ = Function.update r (identity o) (some o) := by
  cases old <;> rfl

theorem apply_removed (r : Replica α) (p : α) :
    r.apply ⟨some p, none⟩ = Function.update r (identity p) none := rfl

theorem expects_put_iff (r : Replica α) (old : Option α) (o : α) :
    r.Expects ⟨old, some o⟩ ↔ old = r (identity o) := by
  refine ⟨fun h => h.before o rfl, fun h => ⟨fun o' ho' => ?_, fun p q hp => ?_⟩⟩
  · obtain rfl := Option.some.inj ho'
    exact h
  · cases hp

theorem expects_removed_iff (r : Replica α) (p : α) :
    r.Expects ⟨some p, none⟩ ↔ ∀ q, r (identity p) = some q → q = p := by
  refine ⟨fun h q => h.deleted p q rfl, fun h => ⟨fun o ho => ?_, fun p' q hp' => ?_⟩⟩
  · cases ho
  · obtain ⟨hp', -⟩ := Change.mk.inj hp'
    obtain rfl := Option.some.inj hp'
    exact h q

end Replica

section Following

variable (f : ClassFilter) (t : TrackedKeys) (k : Kind)

/-- The replica after a step of the watch. -/
def Replica.follow (l : Lister k.Object) (r : Replica k.Object) (e : WatchEvent k.Object) :
    Replica k.Object :=
  match (l.report e).event? f t k with
  | some event => r.receive (listed f t k (l.step e)) event
  | none => r

/-- After the step the replica is what is listed, and what the step hands on is as the replica
expects. -/
structure Faithful (l : Lister k.Object) (r : Replica k.Object) (e : WatchEvent k.Object) :
    Prop where
  copies : r.follow f t k l e = .of (listed f t k (l.step e))
  expected : ∀ event c, (l.report e).event? f t k = some event → event.change? k = some c →
    r.Expects c

/-- Every step of a run is faithful. -/
def Follows : Lister k.Object → Replica k.Object → List (WatchEvent k.Object) → Prop
  | _, _, [] => True
  | l, r, e :: es => Faithful f t k l r e ∧ Follows (l.step e) (r.follow f t k l e) es

end Following

/-- What is handed on of a change. -/
def handed (f : ClassFilter) (t : TrackedKeys) : (k : Kind) → Change k.Object →
    Option (Change k.Object)
  | .ingress, c => f.change? c
  | .configMap, c => t.change? c
  | .service, c | .endpoints, c | .secret, c | .pod, c => some c

/-- The steps that are not faithful. -/
inductive Misread (f : ClassFilter) (t : TrackedKeys) : (k : Kind) → Lister k.Object →
    WatchEvent k.Object → Prop
  /-- An object arrives, and the one of its name that has no namespace is shown in its place. -/
  | applied {k : Kind} {l : Lister k.Object} {o p : k.Object} {c : Change k.Object}
      (hp : l.Mistakes (identity o) p) (hc : handed f t k ⟨some p, some o⟩ = some c)
      (hold : c.old = some p) : Misread f t k l (.apply o)
  /-- An object goes that the lister does not have, and the one of its name that has no namespace
  is shown in its place. -/
  | deleted {k : Kind} {l : Lister k.Object} {o p : k.Object} {c : Change k.Object}
      (hp : l.Mistakes (identity o) p) (hc : handed f t k ⟨some p, none⟩ = some c) :
      Misread f t k l (.delete o)
  /-- Config maps without a name take the beginning of a generated one, so a tracked map and one
  that is not may have the same identity. -/
  | renamed {l : Lister ConfigMap} {o p : ConfigMap} (hp : l.stored? (identity o) = some p)
      (hne : t.tracks (objectKey p) ≠ t.tracks (objectKey o)) :
      Misread f t .configMap l (.apply o)

/-! ### What a lister shows -/

/-- The objects of a lister that are as `mine` says, each under its identity. -/
def Lister.shown {α : Type} (mine : α → Bool) (l : Lister α) : Replica α :=
  fun i => (l.stored? i).filter mine

namespace Lister

variable {α : Type} [ClusterObject α] {l : Lister α}

theorem shown_apply (mine : α → Bool) (l : Lister α) (o : α) :
    (l.step (.apply o)).shown mine =
      Function.update (l.shown mine) (identity o) ((some o).filter mine) := by
  funext i
  unfold shown
  by_cases hi : i = identity o
  · rw [hi, Function.update_self, stored?_step_apply_self]
  · rw [Function.update_of_ne hi, stored?_step_apply_ne l hi]

theorem shown_delete (mine : α → Bool) (l : Lister α) (o : α) :
    (l.step (.delete o)).shown mine = Function.update (l.shown mine) (identity o) none := by
  funext i
  unfold shown
  by_cases hi : i = identity o
  · rw [hi, Function.update_self, stored?_step_delete_self, Option.filter_none]
  · rw [Function.update_of_ne hi, stored?_step_delete_ne l hi]

end Lister

namespace Entries

variable {α : Type}

theorem lookup_of_mem {es : List (Identity × α)} (hn : (es.map Prod.fst).Nodup)
    {e : Identity × α} (he : e ∈ es) : es.lookup e.1 = some e.2 := by
  obtain ⟨before, after, rfl⟩ := List.append_of_mem he
  rw [List.map_append, List.map_cons, List.nodup_append] at hn
  refine List.lookup_eq_some_iff.2 ⟨before, after, rfl, fun p hp => ?_⟩
  have hne := hn.2.2 p.1 (List.mem_map_of_mem hp) e.1 List.mem_cons_self
  simpa using hne.symm

/-- Of entries that stand under the identities of their objects, a search by identity finds the
entry of that identity. -/
theorem find?_values [ClusterObject α] (mine : α → Bool) {es : List (Identity × α)}
    (hn : (es.map Prod.fst).Nodup) (hfiled : ∀ e ∈ es, identity e.2 = e.1) (i : Identity) :
    ((es.map Prod.snd).filter mine).find? (fun o => identity o = i) =
      (es.lookup i).filter mine := by
  induction es with
  | nil => rfl
  | cons e es ih =>
    rcases e with ⟨j, o⟩
    obtain ⟨hj, hn⟩ := List.nodup_cons.1 hn
    have hrest := ih hn fun e he => hfiled e (List.mem_cons_of_mem _ he)
    have ho : identity o = j := hfiled (j, o) List.mem_cons_self
    by_cases hi : i = j
    · subst hi
      have hkeys : i ∉ es.map Prod.fst := hj
      have habsent : es.lookup i = none := by
        rw [List.lookup_eq_none_iff]
        intro e he
        have hne : i ≠ e.1 := by
          rintro rfl
          exact hkeys (List.mem_map_of_mem he)
        simpa using hne
      rw [habsent] at hrest
      rw [List.lookup_cons_self]
      cases hm : mine o with
      | true =>
        rw [Option.filter_some_pos hm, List.map_cons, List.filter_cons_of_pos hm,
          List.find?_cons_of_pos (by simpa using ho)]
      | false =>
        rw [Option.filter_some_neg hm, List.map_cons, List.filter_cons_of_neg (Bool.eq_false_iff.1 hm),
          hrest, Option.filter_none]
    · have hne : identity o ≠ i := fun he => hi (he.symm.trans ho)
      rw [lookup_cons_ne hi, ← hrest]
      cases hm : mine o with
      | true =>
        rw [List.map_cons, List.filter_cons_of_pos hm, List.find?_cons_of_neg (by simpa using hne)]
      | false => rw [List.map_cons, List.filter_cons_of_neg (Bool.eq_false_iff.1 hm)]

end Entries

theorem Replica.of_listed {f : ClassFilter} {t : TrackedKeys} {k : Kind} {l : Lister k.Object}
    (h : l.Tidy) :
    of (listed f t k l) = l.shown (ofInterest f t k) := by
  funext i
  rw [listed_eq]
  refine Entries.find?_values _ l.objects.nodup (fun e he => ?_) i
  exact h.identity_eq (Entries.lookup_of_mem l.objects.nodup he)

/-! ### Changes that are handed on -/

section Handed

variable (f : ClassFilter) (t : TrackedKeys) {k : Kind}

theorem Report.event?_change (c : Change k.Object) :
    (Report.change c).event? f t k = (handed f t k c).map (Event.change k) := by
  cases k <;> rfl

theorem Event.change?_change (c : Change k.Object) : (Event.change k c).change? k = some c := by
  cases k <;> rfl

theorem Replica.receive_change (os : List k.Object) (r : Replica k.Object)
    (c : Change k.Object) : r.receive os (Event.change k c) = r.apply c := by
  cases k <;> rfl

/-- An object that is of interest is handed on with its arrival. -/
theorem handed_added (o : k.Object) :
    handed f t k ⟨none, some o⟩ =
      if ofInterest f t k o then some ⟨none, some o⟩ else none := by
  cases k with
  | ingress =>
    show f.change? ⟨none, some o⟩ = if f.accepts o then _ else _
    cases ho : f.accepts o <;> simp [ClassFilter.change?, Change.filter, ho]
  | _ => rfl

theorem handed_removed (p : k.Object) :
    handed f t k ⟨some p, none⟩ =
      if ofInterest f t k p then some ⟨some p, none⟩ else none := by
  cases k with
  | ingress =>
    show f.change? ⟨some p, none⟩ = if f.accepts p then _ else _
    cases hp : f.accepts p <;> simp [ClassFilter.change?, Change.filter, hp]
  | _ => rfl

/-- An ingress that changes sides comes or goes; a config map is handed on as it is now. -/
theorem handed_updated (p o : k.Object) :
    handed f t k ⟨some p, some o⟩ =
      match ofInterest f t k p, ofInterest f t k o with
      | true, true => some ⟨some p, some o⟩
      | true, false => if k = .configMap then none else some ⟨some p, none⟩
      | false, true => if k = .configMap then some ⟨some p, some o⟩ else some ⟨none, some o⟩
      | false, false => none := by
  cases k with
  | ingress =>
    show f.change? ⟨some p, some o⟩ = match f.accepts p, f.accepts o with
      | true, true => _
      | true, false => _
      | false, true => _
      | false, false => _
    cases hp : f.accepts p <;> cases ho : f.accepts o <;>
      simp [ClassFilter.change?, Change.filter, hp, ho]
  | configMap =>
    show t.change? ⟨some p, some o⟩ = match t.tracks (objectKey p), t.tracks (objectKey o) with
      | true, true => _
      | true, false => _
      | false, true => _
      | false, false => _
    cases hp : t.tracks (objectKey p) <;> cases ho : t.tracks (objectKey o) <;>
      simp [TrackedKeys.change?, Change.latest, ho]
  | _ => rfl

end Handed

/-! ### One step -/

section Steps

variable {f : ClassFilter} {t : TrackedKeys} {k : Kind} {l : Lister k.Object}

/-- A step that reports a change is faithful if the replica is right after what is handed on of it,
and expects it. -/
theorem faithful_iff_of_report {r : Replica k.Object} {e : WatchEvent k.Object}
    {c : Change k.Object} (h : l.report e = .change c) :
    Faithful f t k l r e ↔
      match handed f t k c with
      | none => r = .of (listed f t k (l.step e))
      | some d => r.apply d = .of (listed f t k (l.step e)) ∧ r.Expects d := by
  have hevent : (l.report e).event? f t k = (handed f t k c).map (Event.change k) := by
    rw [h, Report.event?_change]
  cases hd : handed f t k c with
  | none =>
    rw [hd, Option.map_none] at hevent
    simp only
    constructor
    · intro hf
      have hcopies := hf.copies
      rw [Replica.follow, hevent] at hcopies
      exact hcopies
    · intro hr
      refine ⟨?_, fun event d he => ?_⟩
      · rw [Replica.follow, hevent]
        exact hr
      · rw [hevent] at he
        cases he
  | some d =>
    rw [hd, Option.map_some] at hevent
    have hfollow : r.follow f t k l e = r.apply d := by
      rw [Replica.follow, hevent]
      exact Replica.receive_change _ _ _
    simp only
    constructor
    · intro hf
      exact ⟨hfollow ▸ hf.copies, hf.expected _ d hevent (Event.change?_change d)⟩
    · rintro ⟨hcopies, hexpects⟩
      refine ⟨hfollow.trans hcopies, fun event d' he hd' => ?_⟩
      rw [hevent] at he
      obtain rfl := Option.some.inj he
      rw [Event.change?_change] at hd'
      obtain rfl := Option.some.inj hd'
      exact hexpects

/-- A step brings an object that takes nobody's place. -/
theorem faithful_added (h : l.Tidy) {o : k.Object} (hnone : l.get? (identity o) = none)
    (hstored : l.stored? (identity o) = none) :
    Faithful f t k l (l.shown (ofInterest f t k)) (.apply o) := by
  have hreport : l.report (.apply o) = .change ⟨none, some o⟩ := by
    rw [Lister.report, hnone]
  have hshown : l.shown (ofInterest f t k) (identity o) = none := by
    rw [Lister.shown, hstored, Option.filter_none]
  rw [faithful_iff_of_report hreport, Replica.of_listed (h.step _), Lister.shown_apply,
    handed_added]
  cases ho : ofInterest f t k o with
  | true =>
    simp only [if_true]
    rw [Option.filter_some_pos ho, Replica.expects_put_iff]
    exact ⟨Replica.apply_put _ _ _, hshown.symm⟩
  | false =>
    simp only [Bool.false_eq_true, if_false]
    rw [Option.filter_some_neg ho, Function.update_eq_self_iff.2 hshown.symm]

/-- A step brings a new state of an object. -/
theorem faithful_updated_iff (h : l.Tidy) {o p : k.Object}
    (hp : l.stored? (identity o) = some p) :
    Faithful f t k l (l.shown (ofInterest f t k)) (.apply o) ↔
      (k = .configMap → ofInterest f t k p = ofInterest f t k o) := by
  have hid : identity p = identity o := h.identity_eq hp
  have hreport : l.report (.apply o) = .change ⟨some p, some o⟩ := by
    rw [Lister.report, Lister.get?, hp]
    rfl
  have hshown : l.shown (ofInterest f t k) (identity o) = (some p).filter (ofInterest f t k) := by
    rw [Lister.shown, hp]
  rw [faithful_iff_of_report hreport, Replica.of_listed (h.step _), Lister.shown_apply,
    handed_updated]
  generalize l.shown (ofInterest f t k) = r at hshown ⊢
  cases hmp : ofInterest f t k p with
  | true =>
    rw [Option.filter_some_pos hmp] at hshown
    cases hmo : ofInterest f t k o with
    | true =>
      rw [Option.filter_some_pos hmo]
      refine iff_of_true ⟨Replica.apply_put _ _ _, ?_⟩ fun _ => rfl
      exact (Replica.expects_put_iff _ _ _).2 hshown.symm
    | false =>
      rw [Option.filter_some_neg hmo]
      by_cases hk : k = .configMap
      · -- A tracked map that is tracked no more is not reported, and stays in the replica.
        simp only [if_pos hk]
        refine iff_of_false (fun hr => ?_) fun hsame => by cases hsame hk
        have hkept := congrFun hr (identity o)
        rw [hshown, Function.update_self] at hkept
        cases hkept
      · simp only [if_neg hk]
        refine iff_of_true ⟨?_, ?_⟩ fun he => absurd he hk
        · rw [Replica.apply_removed, hid]
        · rw [Replica.expects_removed_iff, hid, hshown]
          exact fun q hq => (Option.some.inj hq).symm
  | false =>
    rw [Option.filter_some_neg hmp] at hshown
    cases hmo : ofInterest f t k o with
    | true =>
      rw [Option.filter_some_pos hmo]
      by_cases hk : k = .configMap
      · -- A map that was not tracked is shown as the state before.
        simp only [if_pos hk]
        refine iff_of_false (fun hr => ?_) fun hsame => by cases hsame hk
        have hbefore := (Replica.expects_put_iff _ _ _).1 hr.2
        rw [hshown] at hbefore
        cases hbefore
      · simp only [if_neg hk]
        refine iff_of_true ⟨Replica.apply_put _ _ _, ?_⟩ fun he => absurd he hk
        exact (Replica.expects_put_iff _ _ _).2 hshown.symm
    | false =>
      rw [Option.filter_some_neg hmo, Function.update_eq_self_iff.2 hshown.symm]
      exact iff_of_true rfl fun _ => rfl

/-- A step brings an object while the lister has another one of its name. -/
theorem faithful_mistaken_iff (h : l.Tidy) {o p : k.Object} (hp : l.Mistakes (identity o) p) :
    Faithful f t k l (l.shown (ofInterest f t k)) (.apply o) ↔
      ∀ c, handed f t k ⟨some p, some o⟩ = some c → c.old ≠ some p := by
  have hid : identity p ≠ identity o := hp.identity_ne h
  have hreport : l.report (.apply o) = .change ⟨some p, some o⟩ := by
    rw [Lister.report, hp.get?_eq]
  have hshown : l.shown (ofInterest f t k) (identity o) = none := by
    rw [Lister.shown, hp.absent, Option.filter_none]
  have hother : l.shown (ofInterest f t k) (identity p) =
      (some p).filter (ofInterest f t k) := by
    rw [Lister.shown, h.identity_eq hp.present, hp.present]
  rw [faithful_iff_of_report hreport, Replica.of_listed (h.step _), Lister.shown_apply,
    handed_updated]
  generalize l.shown (ofInterest f t k) = r at hshown hother ⊢
  -- What would be put in the place of `o` is not there, and nothing but `o` may change.
  have hput : ¬(r.apply ⟨some p, some o⟩ =
      Function.update r (identity o) ((some o).filter (ofInterest f t k)) ∧
      r.Expects ⟨some p, some o⟩) := by
    rintro ⟨-, hexpects⟩
    have hbefore := (Replica.expects_put_iff _ _ _).1 hexpects
    rw [hshown] at hbefore
    cases hbefore
  cases hmp : ofInterest f t k p with
  | true =>
    rw [Option.filter_some_pos hmp] at hother
    cases hmo : ofInterest f t k o with
    | true => exact iff_of_false hput fun hne => hne _ rfl rfl
    | false =>
      rw [Option.filter_some_neg hmo, Function.update_eq_self_iff.2 hshown.symm]
      by_cases hk : k = .configMap
      · simp only [if_pos hk]
        exact iff_of_true trivial fun c hc => by cases hc
      · simp only [if_neg hk]
        refine iff_of_false (fun hr => ?_) fun hne => hne _ rfl rfl
        have hremoved := congrFun hr.1 (identity p)
        rw [Replica.apply_removed, Function.update_self, hother] at hremoved
        cases hremoved
  | false =>
    cases hmo : ofInterest f t k o with
    | true =>
      by_cases hk : k = .configMap
      · simp only [if_pos hk]
        exact iff_of_false hput fun hne => hne _ rfl rfl
      · simp only [if_neg hk]
        refine iff_of_true ⟨?_, ?_⟩ fun c hc => ?_
        · rw [Replica.apply_put, Option.filter_some_pos hmo]
        · exact (Replica.expects_put_iff _ _ _).2 hshown.symm
        · obtain rfl := Option.some.inj hc
          exact fun he => by cases he
    | false =>
      rw [Option.filter_some_neg hmo, Function.update_eq_self_iff.2 hshown.symm]
      exact iff_of_true rfl fun c hc => by cases hc

/-- A step takes an object away: one that the lister shows for it. -/
theorem faithful_deleted_iff (h : l.Tidy) (o : k.Object) :
    Faithful f t k l (l.shown (ofInterest f t k)) (.delete o) ↔
      ∀ p, l.Mistakes (identity o) p → handed f t k ⟨some p, none⟩ = none := by
  rw [faithful_iff_of_report rfl, Replica.of_listed (h.step _), Lister.shown_delete,
    handed_removed]
  rcases l.get?_cases (identity o) with hown | ⟨p, hp, hmistaken⟩
  · rw [hown]
    have hnobody : ∀ p, ¬l.Mistakes (identity o) p := by
      intro p hp
      have hget := hp.get?_eq
      rw [hown, hp.absent] at hget
      cases hget
    refine iff_of_true ?_ fun p hp => absurd hp (hnobody p)
    cases hstored : l.stored? (identity o) with
    | none =>
      have hshown : l.shown (ofInterest f t k) (identity o) = none := by
        rw [Lister.shown, hstored, Option.filter_none]
      rw [Option.getD_none, Function.update_eq_self_iff.2 hshown.symm]
      cases ho : ofInterest f t k o with
      | false => rfl
      | true =>
        refine ⟨?_, ?_⟩
        · rw [Replica.apply_removed, Function.update_eq_self_iff.2 hshown.symm]
        · rw [Replica.expects_removed_iff, hshown]
          exact fun q hq => by cases hq
    | some p =>
      have hid : identity p = identity o := h.identity_eq hstored
      rw [Option.getD_some]
      cases hmp : ofInterest f t k p with
      | false =>
        have hshown : l.shown (ofInterest f t k) (identity o) = none := by
          rw [Lister.shown, hstored, Option.filter_some_neg hmp]
        exact (Function.update_eq_self_iff.2 hshown.symm).symm
      | true =>
        refine ⟨?_, ?_⟩
        · rw [Replica.apply_removed, hid]
        · rw [Replica.expects_removed_iff, hid, Lister.shown, hstored,
            Option.filter_some_pos hmp]
          exact fun q hq => (Option.some.inj hq).symm
  · have hshown : l.shown (ofInterest f t k) (identity o) = none := by
      rw [Lister.shown, hmistaken.absent, Option.filter_none]
    have hother : l.shown (ofInterest f t k) (identity p) =
        (some p).filter (ofInterest f t k) := by
      rw [Lister.shown, h.identity_eq hmistaken.present, hmistaken.present]
    rw [hp, Option.getD_some, Function.update_eq_self_iff.2 hshown.symm]
    cases hmp : ofInterest f t k p with
    | false =>
      refine iff_of_true rfl fun q hq => ?_
      obtain rfl := Option.some.inj (hp.symm.trans hq.get?_eq)
      rw [handed_removed, hmp]
      rfl
    | true =>
      rw [Option.filter_some_pos hmp] at hother
      refine iff_of_false (fun hr => ?_) fun hnone => ?_
      · have hremoved := congrFun hr.1 (identity p)
        rw [Replica.apply_removed, Function.update_self, hother] at hremoved
        cases hremoved
      · have hhanded := hnone p hmistaken
        rw [handed_removed, hmp] at hhanded
        cases hhanded

theorem shown_of_objects_eq {α : Type} {mine : α → Bool} {l l' : Lister α}
    (h : l'.objects = l.objects) : l'.shown mine = l.shown mine := by
  funext i
  rw [Lister.shown, Lister.shown, Lister.stored?, Lister.stored?, h]

/-- A step that reports nothing leaves the lister's objects as they are. -/
theorem faithful_of_nothing (h : l.Tidy) {e : WatchEvent k.Object} (hreport : l.report e = .nothing)
    (hsame : (l.step e).objects = l.objects) :
    Faithful f t k l (l.shown (ofInterest f t k)) e := by
  have hevent : (l.report e).event? f t k = none := by
    rw [hreport]
    cases k <;> rfl
  refine ⟨?_, fun event c he => ?_⟩
  · rw [Replica.follow, hevent, Replica.of_listed (h.step e), shown_of_objects_eq hsame]
  · rw [hevent] at he
    cases he

theorem faithful_initDone (r : Replica k.Object) : Faithful f t k l r .initDone := by
  have hevent : (l.report .initDone).event? f t k = some .resync := by
    cases k <;> rfl
  refine ⟨?_, fun event c he hc => ?_⟩
  · rw [Replica.follow, hevent]
    rfl
  · rw [hevent] at he
    obtain rfl := Option.some.inj he
    cases k <;> cases hc

/-- The steps that are not faithful to a replica that is right are those that the lister misreads. -/
theorem faithful_iff_not_misread (h : l.Tidy) (e : WatchEvent k.Object) :
    Faithful f t k l (l.shown (ofInterest f t k)) e ↔ ¬Misread f t k l e := by
  cases e with
  | init =>
    refine iff_of_true (faithful_of_nothing h rfl rfl) fun hm => ?_
    cases hm
  | initApply o =>
    refine iff_of_true (faithful_of_nothing h rfl rfl) fun hm => ?_
    cases hm
  | initDone =>
    refine iff_of_true (faithful_initDone _) fun hm => ?_
    cases hm
  | delete o =>
    rw [faithful_deleted_iff h]
    constructor
    · intro hnone hm
      cases hm with
      | deleted hp hc => cases (hnone _ hp).symm.trans hc
    · intro hm p hp
      cases hc : handed f t k ⟨some p, none⟩ with
      | none => rfl
      | some c => exact absurd (Misread.deleted hp hc) hm
  | apply o =>
    rcases l.get?_cases (identity o) with hown | ⟨p, hp, hmistaken⟩
    · cases hstored : l.stored? (identity o) with
      | none =>
        refine iff_of_true (faithful_added h (hown.trans hstored) hstored) fun hm => ?_
        cases hm with
        | applied hp hc hold => cases (hown.trans hstored).symm.trans hp.get?_eq
        | renamed hp hne => cases hstored.symm.trans hp
      | some p =>
        rw [faithful_updated_iff h hstored]
        constructor
        · intro hsame hm
          cases hm with
          | applied hp hc hold => cases hstored.symm.trans hp.absent
          | renamed hp hne =>
            obtain rfl := Option.some.inj (hstored.symm.trans hp)
            exact hne (hsame rfl)
        · rintro hm rfl
          by_contra hne
          exact hm (.renamed hstored hne)
    · rw [faithful_mistaken_iff h hmistaken]
      constructor
      · intro hold hm
        cases hm with
        | applied hq hc hold' =>
          obtain rfl := Option.some.inj (hp.symm.trans hq.get?_eq)
          exact hold _ hc hold'
        | renamed hq hne => cases hmistaken.absent.symm.trans hq
      · intro hm c hc hold
        exact hm (.applied hmistaken hc hold)

end Steps

/-! ### Runs -/

theorem Lister.tidy_foldl {α : Type} [ClusterObject α] {l : Lister α} (h : l.Tidy)
    (es : List (WatchEvent α)) : (es.foldl step l).Tidy := by
  induction es generalizing l with
  | nil => exact h
  | cons e es ih => exact ih (h.step e)

theorem follows_iff {f : ClassFilter} {t : TrackedKeys} {k : Kind} {l : Lister k.Object}
    (h : l.Tidy) (es : List (WatchEvent k.Object)) :
    Follows f t k l (.of (listed f t k l)) es ↔
      ∀ before e after, es = before ++ e :: after →
        ¬Misread f t k (before.foldl Lister.step l) e := by
  induction es generalizing l with
  | nil =>
    refine iff_of_true trivial fun before e after hes => ?_
    cases before <;> cases hes
  | cons e es ih =>
    rw [Follows]
    constructor
    · rintro ⟨hstep, hrest⟩ before e' after hes
      rw [hstep.copies, ih (h.step e)] at hrest
      rw [Replica.of_listed h, faithful_iff_not_misread h] at hstep
      cases before with
      | nil =>
        obtain ⟨rfl, -⟩ := List.cons.inj hes
        exact hstep
      | cons e'' before =>
        obtain ⟨rfl, htail⟩ := List.cons.inj hes
        exact hrest before e' after htail
    · intro hnone
      have hstep : Faithful f t k l (.of (listed f t k l)) e := by
        rw [Replica.of_listed h, faithful_iff_not_misread h]
        exact hnone [] e es rfl
      refine ⟨hstep, ?_⟩
      rw [hstep.copies, ih (h.step e)]
      intro before e' after hes
      exact hnone (e :: before) e' after (congrArg (e :: ·) hes)

/-! ### Objects as the cluster holds them -/

theorem not_mistakes_of_named {α : Type} [ClusterObject α] {l : Lister α} (h : l.Keeps Named)
    (i : Identity) (p : α) : ¬l.Mistakes i p := by
  intro hp
  obtain ⟨hid, k, -, hns, -⟩ := h.objects _ _ hp.present
  have hnone : (ClusterObject.metadata p).ns = none := congrArg Identity.ns hid
  rw [hns] at hnone
  cases hnone

theorem not_misread_of_named {f : ClassFilter} {t : TrackedKeys} {k : Kind} {l : Lister k.Object}
    (h : l.Keeps Named) {e : WatchEvent k.Object} (he : ∀ o ∈ e.object?, Named o) :
    ¬Misread f t k l e := by
  intro hm
  cases hm with
  | applied hp hc hold => exact not_mistakes_of_named h _ _ hp
  | deleted hp hc => exact not_mistakes_of_named h _ _ hp
  | @renamed l o p hp hne =>
    obtain ⟨hid, hnamed⟩ := h.objects _ _ hp
    have ho : Named o := he o rfl
    have hkey : keyOf p = keyOf o := by
      rw [hnamed.identity_eq, ho.identity_eq] at hid
      exact Key.identity_injective hid
    rw [hnamed.objectKey_eq, ho.objectKey_eq, hkey] at hne
    exact hne rfl

theorem follows_of_named (f : ClassFilter) (t : TrackedKeys) (k : Kind)
    {past es : List (WatchEvent k.Object)}
    (h : ∀ e ∈ past ++ es, ∀ o ∈ e.object?, Named o) :
    Follows f t k (past.foldl Lister.step Lister.empty)
      (.of (listed f t k (past.foldl Lister.step Lister.empty))) es := by
  have hkeeps : ∀ {l : Lister k.Object} (es' : List (WatchEvent k.Object)), l.Keeps Named →
      (∀ e ∈ es', ∀ o ∈ e.object?, Named o) → (es'.foldl Lister.step l).Keeps Named := by
    intro l es'
    induction es' generalizing l with
    | nil => exact fun hl _ => hl
    | cons e es' ih =>
      intro hl hnamed
      refine ih (hl.step (hnamed e List.mem_cons_self)) fun e' he' => ?_
      exact hnamed e' (List.mem_cons_of_mem _ he')
  rw [follows_iff (Lister.tidy_foldl (Lister.keeps_empty _) past)]
  rintro before e after rfl
  rw [← List.foldl_append]
  refine not_misread_of_named (hkeeps _ (Lister.keeps_empty _) fun e' he' => h e' ?_) (h e ?_)
  · rcases List.mem_append.1 he' with he' | he'
    · exact List.mem_append_left _ he'
    · exact List.mem_append_right _ (List.mem_append_left _ he')
  · exact List.mem_append_right _ (List.mem_append_right _ List.mem_cons_self)

/-! ### Every run -/

/-- A replica that starts as what is listed is that after every step, and every change is as it
expects, exactly if the lister misreads no step. It misreads none of objects that have a namespace
and a name. -/
theorem follows_iff_not_misread (f : ClassFilter) (t : TrackedKeys) (k : Kind)
    (past es : List (WatchEvent k.Object)) :
    let l := past.foldl Lister.step Lister.empty
    (Follows f t k l (.of (listed f t k l)) es ↔
      ∀ before e after, es = before ++ e :: after →
        ¬Misread f t k (before.foldl Lister.step l) e) ∧
      ((∀ e ∈ past ++ es, ∀ o ∈ e.object?, Named o) →
        Follows f t k l (.of (listed f t k l)) es) :=
  ⟨follows_iff (Lister.tidy_foldl (Lister.keeps_empty _) past) es, follows_of_named f t k⟩

/-! ### A namesake without a namespace -/

def namesake : Service := ⟨⟨none, some "web", none, none, none, none, false⟩, none⟩

def web : Service := ⟨.ofKey ⟨"default", "web"⟩, none⟩

/-- A service that the lister does not have is deleted: its namesake leaves the replica, and stays
in the lister. A service arrives: its namesake is shown as the state before. -/
theorem not_follows_of_namesake :
    let f : ClassFilter := ⟨"haul", false⟩
    let t : TrackedKeys := ⟨none, none⟩
    let l : Lister Service := Lister.empty.step (.apply namesake)
    let r : Replica Service := .of (listed f t .service l)
    (r.follow f t .service l (.delete web) (identity namesake) = none ∧
      listed f t .service (l.step (.delete web)) = [namesake] ∧
      ¬Follows f t .service l r [.delete web]) ∧
    l.report (.apply web) = .change ⟨some namesake, some web⟩ ∧ r (identity web) = none ∧
      ¬Follows f t .service l r [.apply web] := by
  intro f t l r
  have hgone : r.follow f t .service l (.delete web) (identity namesake) = none := by decide
  have hlisted : listed f t .service (l.step (.delete web)) = [namesake] := by decide
  have hold : l.report (.apply web) = .change ⟨some namesake, some web⟩ := by decide
  have hunknown : r (identity web) = none := by decide
  refine ⟨⟨hgone, hlisted, fun hf => ?_⟩, hold, hunknown, fun hf => ?_⟩
  · have hcopy := congrFun hf.1.copies (identity namesake)
    rw [hgone, hlisted] at hcopy
    cases hcopy
  · have hevent : (l.report (.apply web)).event? f t .service =
        some (.service ⟨some namesake, some web⟩) := by
      rw [hold]
      rfl
    have hbefore := (hf.1.expected _ _ hevent rfl).before _ rfl
    rw [hunknown] at hbefore
    cases hbefore

end IngressCache
