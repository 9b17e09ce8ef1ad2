import IngressCache.Proofs.Controller.OpenWindow
import IngressCache.Proofs.Watch.Replica

/-!
# Completeness of snapshots

Between two publishes objects come, change and go, ingresses also with their class. A snapshot
that asks for no full synchronisation accounts for every object of the three kinds that it lists
by what happened to them: the object is listed as gone, as new or as changed. Only an object that
arrives while the lister has a namesake without a namespace is listed as changed when it is new.
-/

namespace IngressCache

/-! ### Accounts -/

section Accounts

variable {α : Type} [ClusterObject α]

/-- The lists say what has become of the object of an identity, which was `x` and is `y`. Where it
is mistaken for another object, it may be among the updates when it is new. -/
structure Delta.Accounts (d : Delta α) (i : Identity) (x y : Option α) (mistaken : Prop) : Prop where
  gone : x ≠ none → y = none → i ∈ d.del.map identity
  came : x = none → y ≠ none → i ∈ d.add.map identity ∨ i ∈ d.upd.map identity ∧ mistaken
  changed : x ≠ none → y ≠ none → x ≠ y →
    i ∈ d.upd.map identity ∨ i ∈ d.del.map identity ∧ i ∈ d.add.map identity

theorem Delta.accounts_self (d : Delta α) (i : Identity) (x : Option α) (mistaken : Prop) :
    d.Accounts i x x mistaken :=
  ⟨fun hx hy => absurd hy hx, fun hx hy => absurd hx hy, fun _ _ hne => absurd rfl hne⟩

theorem Delta.Accounts.weaken {d : Delta α} {i : Identity} {x y : Option α}
    {mistaken mistaken' : Prop} (h : d.Accounts i x y mistaken) (himp : mistaken → mistaken') :
    d.Accounts i x y mistaken' :=
  ⟨h.gone, fun hx hy => (h.came hx hy).imp_right (And.imp_right himp), h.changed⟩

/-- The lists after a change, if there was one. -/
def Delta.tell (d : Delta α) (c : Option (Change α)) : Delta α :=
  ⟨d.del ++ (c.bind Change.deleted?).toList, d.upd ++ (c.bind Change.updated?).toList,
    d.add ++ (c.bind Change.added?).toList⟩

/-- What a change tells of the object of an identity, which goes from `y` to `z`. -/
inductive Told (i : Identity) (y z : Option α) (mistaken : Prop) : Option (Change α) → Prop
  | same (c : Option (Change α)) (hz : z = y) : Told i y z mistaken c
  | gone {c : Change α} {p : α} (hz : z = none) (hc : c.deleted? = some p)
      (hp : identity p = i) : Told i y z mistaken (some c)
  | came {c : Change α} {o : α} (hy : y = none) (hz : z ≠ none) (hc : c.added? = some o)
      (ho : identity o = i) : Told i y z mistaken (some c)
  | changed {c : Change α} {o : α} (hy : y = none → mistaken) (hz : z ≠ none)
      (hc : c.updated? = some o) (ho : identity o = i) : Told i y z mistaken (some c)

theorem Told.weaken {i : Identity} {y z : Option α} {mistaken mistaken' : Prop}
    {c : Option (Change α)} (h : Told i y z mistaken c) (himp : mistaken → mistaken') :
    Told i y z mistaken' c := by
  cases h with
  | same c hz => exact .same c hz
  | gone hz hc hp => exact .gone hz hc hp
  | came hy hz hc ho => exact .came hy hz hc ho
  | changed hy hz hc ho => exact .changed (himp ∘ hy) hz hc ho

theorem Delta.Accounts.tell {d : Delta α} {i : Identity} {x y z : Option α}
    {mistaken : Prop} (h : d.Accounts i x y mistaken) {c : Option (Change α)}
    (hc : Told i y z mistaken c) : (d.tell c).Accounts i x z mistaken := by
  have hdel : i ∈ d.del.map identity → i ∈ (d.tell c).del.map identity := by
    rw [Delta.tell, List.map_append]
    exact List.mem_append_left _
  have hupd : i ∈ d.upd.map identity → i ∈ (d.tell c).upd.map identity := by
    rw [Delta.tell, List.map_append]
    exact List.mem_append_left _
  have hadd : i ∈ d.add.map identity → i ∈ (d.tell c).add.map identity := by
    rw [Delta.tell, List.map_append]
    exact List.mem_append_left _
  cases hc with
  | same c hz =>
    rw [hz]
    exact ⟨fun hx hy => hdel (h.gone hx hy),
      fun hx hy => (h.came hx hy).imp hadd (And.imp_left hupd),
      fun hx hy hne => (h.changed hx hy hne).imp hupd (And.imp hdel hadd)⟩
  | @gone c p hz hc hp =>
    have hnow : i ∈ (d.tell (some c)).del.map identity := by
      simp [Delta.tell, hc, hp]
    exact ⟨fun _ _ => hnow, fun _ hne => absurd hz hne, fun _ hne _ => absurd hz hne⟩
  | @came c o hy hz hc ho =>
    have hnow : i ∈ (d.tell (some c)).add.map identity := by
      simp [Delta.tell, hc, ho]
    -- An object that comes again was listed as gone before.
    exact ⟨fun _ he => absurd he hz, fun _ _ => .inl hnow,
      fun hx _ _ => .inr ⟨hdel (h.gone hx hy), hnow⟩⟩
  | @changed c o hy hz hc ho =>
    have hnow : i ∈ (d.tell (some c)).upd.map identity := by
      simp [Delta.tell, hc, ho]
    refine ⟨fun _ he => absurd he hz, fun hx _ => ?_, fun _ _ _ => .inl hnow⟩
    by_cases hy' : y = none
    · exact .inr ⟨hnow, hy hy'⟩
    · exact (h.came hx hy').imp hadd (And.imp_left hupd)

end Accounts

/-- The lists of a kind of which a snapshot has deletions too. -/
def Snapshot.delta? (s : Snapshot) : (k : Kind) → Option (Delta k.Object)
  | .ingress => some s.ingresses
  | .service => some s.services
  | .secret => some s.secrets
  | .endpoints | .configMap | .pod => none

/-! ### One step of a watch -/

section Steps

variable {f : ClassFilter} {t : TrackedKeys} {k : Kind} {l : Lister k.Object}

theorem filter_ne_none {α : Type} {mine : α → Bool} {o : α} (ho : mine o = true) :
    (some o).filter mine ≠ none := by
  rw [Option.filter_some_pos ho]
  exact Option.some_ne_none o

theorem handed_bind (c : Change k.Object) :
    ((Report.change c).event? f t k).bind (Event.change? k) = handed f t k c := by
  rw [Report.event?_change]
  cases handed f t k c with
  | none => rfl
  | some d => exact Event.change?_change d

/-- A change with both sides tells of the object that it brings, if the state before is that
object's, or is mistaken for it. -/
theorem told_updated (hk : k ≠ .configMap) {p o : k.Object} {y : Option k.Object}
    {mistaken : Prop}
    (hy : y = (some p).filter (ofInterest f t k) ∧ identity p = identity o ∨
      y = none ∧ (ofInterest f t k p = true → mistaken)) :
    Told (identity o) y ((some o).filter (ofInterest f t k)) mistaken
      (handed f t k ⟨some p, some o⟩) := by
  rw [handed_updated]
  cases hp : ofInterest f t k p with
  | true =>
    cases ho : ofInterest f t k o with
    | true =>
      refine .changed (fun hnone => ?_) (filter_ne_none ho) rfl rfl
      rcases hy with ⟨hown, -⟩ | ⟨-, hmistaken⟩
      · exact absurd (hown.symm.trans hnone) (filter_ne_none hp)
      · exact hmistaken hp
    | false =>
      simp only [if_neg hk]
      rcases hy with ⟨-, hid⟩ | ⟨hnone, -⟩
      · exact .gone (Option.filter_some_neg ho) rfl hid
      · exact .same _ ((Option.filter_some_neg ho).trans hnone.symm)
  | false =>
    have hnone : y = none := by
      rcases hy with ⟨hown, -⟩ | ⟨hnone, -⟩
      · rw [hown, Option.filter_some_neg hp]
      · exact hnone
    cases ho : ofInterest f t k o with
    | true =>
      simp only [if_neg hk]
      exact .came hnone (filter_ne_none ho) rfl rfl
    | false => exact .same _ ((Option.filter_some_neg ho).trans hnone.symm)

theorem told_apply (hk : k ≠ .configMap) (h : l.Tidy) (o : k.Object) :
    Told (identity o) (l.shown (ofInterest f t k) (identity o))
      ((some o).filter (ofInterest f t k))
      (∃ p, l.Mistakes (identity o) p ∧ ofInterest f t k p = true)
      (handed f t k ⟨l.get? (identity o), some o⟩) := by
  rw [Lister.shown]
  rcases l.get?_cases (identity o) with hown | ⟨p, hp, hmistaken⟩
  · rw [hown]
    cases hstored : l.stored? (identity o) with
    | some p => exact told_updated hk (.inl ⟨rfl, h.identity_eq hstored⟩)
    | none =>
      rw [handed_added, Option.filter_none]
      cases ho : ofInterest f t k o with
      | true => exact .came rfl (filter_ne_none ho) rfl rfl
      | false => exact .same _ (Option.filter_some_neg ho)
  · rw [hp, hmistaken.absent, Option.filter_none]
    exact told_updated hk (.inr ⟨rfl, fun hmine => ⟨p, hmistaken, hmine⟩⟩)

theorem told_delete (h : l.Tidy) (o : k.Object) (mistaken : Prop) :
    Told (identity o) (l.shown (ofInterest f t k) (identity o)) none mistaken
      (handed f t k ⟨some ((l.get? (identity o)).getD o), none⟩) := by
  rw [handed_removed, Lister.shown]
  cases hstored : l.stored? (identity o) with
  | none => exact .same _ rfl
  | some p =>
    have hget : (l.get? (identity o)).getD o = p := by
      rw [Lister.get?, hstored]
      rfl
    rw [hget]
    cases hp : ofInterest f t k p with
    | true => exact .gone rfl rfl (h.identity_eq hstored)
    | false => exact .same _ (Option.filter_some_neg hp).symm

/-- What is handed on of a step tells what becomes of the object of the step, and nothing becomes
of any other. -/
theorem told_step (hk : k ≠ .configMap) (h : l.Tidy) {e : WatchEvent k.Object}
    (he : e ≠ .initDone) (i : Identity) :
    Told i (l.shown (ofInterest f t k) i) ((l.step e).shown (ofInterest f t k) i)
      (∃ p, l.Mistakes i p ∧ ofInterest f t k p = true)
      (((l.report e).event? f t k).bind (Event.change? k)) := by
  cases e with
  | init => exact .same _ (congrFun (shown_of_objects_eq rfl) i)
  | initApply o => exact .same _ (congrFun (shown_of_objects_eq rfl) i)
  | initDone => exact absurd rfl he
  | delete o =>
    rw [Lister.shown_delete, Lister.report, handed_bind]
    by_cases hi : i = identity o
    · rw [hi, Function.update_self]
      exact told_delete h o _
    · rw [Function.update_of_ne hi]
      exact .same _ rfl
  | apply o =>
    rw [Lister.shown_apply, Lister.report, handed_bind]
    by_cases hi : i = identity o
    · rw [hi, Function.update_self]
      exact told_apply hk h o
    · rw [Function.update_of_ne hi]
      exact .same _ rfl

end Steps

namespace Controller

/-! ### Objects of a controller -/

/-- The objects of a kind that the controller has and that are of interest to it. -/
def held (c : Controller) (k : Kind) : Replica k.Object :=
  match c.listers.of k with
  | some l => l.shown (ofInterest c.classFilter c.aggregator.tracked k)
  | none => fun _ => none

/-- The lister does not have the object of an identity, and takes an object of interest for it. -/
def Mistakes (c : Controller) (k : Kind) (i : Identity) : Prop :=
  ∃ l p, c.listers.of k = some l ∧ l.Mistakes i p ∧
    ofInterest c.classFilter c.aggregator.tracked k p = true

def Tidy (c : Controller) : Prop :=
  ∀ k l, c.listers.of k = some l → l.Tidy

theorem tidy_start (settings : Settings) (acme : Except KeyFault AcmeKeys)
    (store : SecretStore) : (start settings acme store).Tidy := by
  intro k l hl
  have hempty : l = .empty := by
    cases k with
    | pod =>
      have hpods : (if !settings.disablePodList then some Lister.empty else none) = some l := hl
      split at hpods
      · exact (Option.some.inj hpods).symm
      · cases hpods
    | _ => exact (Option.some.inj hl).symm
  rw [hempty]
  exact Lister.keeps_empty _

theorem Tidy.act {c : Controller} (h : c.Tidy) (a : Action) : (c.act a).Tidy := by
  intro k l hl
  rw [listers_act] at hl
  cases a with
  | observe j e =>
    by_cases hj : k = j
    · subst hj
      rw [Listers.of_step_self] at hl
      obtain ⟨l', hl', rfl⟩ := Option.map_eq_some_iff.1 hl
      exact (h k l' hl').step e
    · rw [Listers.of_step_ne hj] at hl
      exact h k l hl
  | _ => exact h k l hl

theorem Tidy.run {c : Controller} (h : c.Tidy) (as : List Action) : (c.run as).Tidy :=
  run_invariant (P := Tidy) (Q := fun _ => True) (fun _ a _ h => h.act a) h fun _ _ => trivial

theorem held_act {c : Controller} (h : ∀ call, c.store.answers call = true) (a : Action)
    (k : Kind) :
    (c.act a).held k =
      match (c.act a).listers.of k with
      | some l => l.shown (ofInterest c.classFilter c.aggregator.tracked k)
      | none => fun _ => none := by
  have hfilter : (c.act a).classFilter = c.classFilter := by
    unfold classFilter
    rw [settings_act]
  unfold held
  rw [hfilter, tracked_act h a]

/-- What arrives with an action tells what becomes of an object. -/
theorem told_act {c : Controller} (h : ∀ call, c.store.answers call = true) (htidy : c.Tidy)
    {k : Kind} (hk : k ≠ .configMap) {a : Action}
    (hblank : ∀ e, c.event? a = some e → e.isBlank = false) (i : Identity) :
    Told i (c.held k i) ((c.act a).held k i) (c.Mistakes k i)
      ((c.event? a).bind (Event.change? k)) := by
  rw [held_act h, listers_act]
  unfold held
  cases a with
  | observe j e =>
    by_cases hj : k = j
    · subst hj
      rw [event?_observe] at hblank ⊢
      simp only
      rw [Listers.of_step_self]
      cases hl : c.listers.of k with
      | none => exact .same _ rfl
      | some l =>
        have he : e ≠ .initDone := by
          rintro rfl
          have hresync : (l.report .initDone).event? c.classFilter c.aggregator.tracked k =
              some .resync := by
            cases k <;> rfl
          rw [hl, Option.bind_some, hresync] at hblank
          cases hblank _ rfl
        have htold := told_step (f := c.classFilter) (t := c.aggregator.tracked) hk
          (htidy k l hl) he i
        have hmistaken : (∃ p, l.Mistakes i p ∧
            ofInterest c.classFilter c.aggregator.tracked k p = true) ↔ c.Mistakes k i := by
          constructor
          · rintro ⟨p, hp, hmine⟩
            exact ⟨l, p, hl, hp, hmine⟩
          · rintro ⟨l', p, hl', hp, hmine⟩
            obtain rfl := Option.some.inj (hl.symm.trans hl')
            exact ⟨p, hp, hmine⟩
        rw [propext hmistaken] at htold
        exact htold
    · refine .same _ ?_
      simp only
      rw [Listers.of_step_ne hj]
  | _ => exact .same _ rfl

/-! ### Windows -/

theorem deltaOf_append_toList (k : Kind) (w : List Event) (e : Option Event) :
    deltaOf k (w ++ e.toList) = (deltaOf k w).tell (e.bind (Event.change? k)) := by
  cases e with
  | none =>
    rw [Option.toList_none, List.append_nil]
    simp [Delta.tell]
  | some e => exact deltaOf_concat k w e

theorem accounts_run {c : Controller} (h : ∀ call, c.store.answers call = true)
    (htidy : c.Tidy) {k : Kind} (hk : k ≠ .configMap) {as : List Action}
    (hblank : ∀ e ∈ c.events as, e.isBlank = false) {i : Identity} {w : List Event}
    {x : Option k.Object} {mistaken : Prop}
    (hw : (deltaOf k w).Accounts i x (c.held k i) mistaken) :
    (deltaOf k (w ++ c.events as)).Accounts i x ((c.run as).held k i)
      (mistaken ∨ ∃ bs, bs <+: as ∧ (c.run bs).Mistakes k i) := by
  induction as generalizing c w mistaken with
  | nil =>
    rw [events, List.append_nil]
    exact hw.weaken .inl
  | cons a as ih =>
    rw [events] at hblank
    have htold := told_act h htidy hk
      (fun e he => hblank e (List.mem_append_left _ (by simp [he]))) i (a := a)
    have hnow : (deltaOf k (w ++ (c.event? a).toList)).Accounts i x ((c.act a).held k i)
        (mistaken ∨ c.Mistakes k i) := by
      rw [deltaOf_append_toList]
      exact (hw.weaken .inl).tell (htold.weaken .inr)
    have hrest := ih (answers_act h a) (htidy.act a)
      (fun e he => hblank e (List.mem_append_right _ he)) hnow
    rw [run_cons, events, ← List.append_assoc]
    refine hrest.weaken ?_
    rintro ((hm | hm) | ⟨bs, hbs, hm⟩)
    · exact .inl hm
    · exact .inr ⟨[], List.nil_prefix, hm⟩
    · exact .inr ⟨a :: bs, List.cons_prefix_cons.2 ⟨rfl, hbs⟩, hm⟩

/-- A snapshot that asks for no full synchronisation accounts for every object of its kinds, from
the publish before it. Only where the lister takes another object for one that arrives may that
one be among the updates. -/
theorem deltas_account (settings : Settings) (acme : Except KeyFault AcmeKeys)
    {store : SecretStore} (hstore : ∀ call, store.answers call = true) (before : List Action)
    {as : List Action} (has : .publish ∉ as) {k : Kind} {d : Delta k.Object} (i : Identity) :
    let c := (start settings acme store).run (before ++ [.publish])
    let s := (c.run as).publish.2
    s.fullSync = false → s.delta? k = some d →
      d.Accounts i (c.held k i) ((c.run as).held k i)
        (∃ bs, bs <+: as ∧ (c.run bs).Mistakes k i) := by
  intro c s hfull hd
  have hans : ∀ call, c.store.answers call = true := answers_run hstore _
  have htidy : c.Tidy := (tidy_start settings acme store).run _
  obtain ⟨past, w, hopen⟩ :=
    exists_gathers_run (gathers_start settings acme store) hstore before
  have hc : c.Gathers (past ++ w) [] := by
    show ((start settings acme store).run (before ++ [.publish])).Gathers _ _
    rw [run_append]
    exact hopen.publish
  have hend := hc.run hans has
  rw [List.nil_append] at hend
  have hs : s = (Pending.ofEvents (c.run as).aggregator.tracked (past ++ w)
      (c.events as)).snapshot := congrArg Pending.snapshot hend
  have hblank : ∀ e ∈ c.events as, e.isBlank = false := by
    rw [hs] at hfull
    intro e he
    exact Bool.eq_false_iff.2 (List.any_eq_false.1 hfull e he)
  have hk : k ≠ .configMap ∧ d = deltaOf k (c.events as) := by
    rw [hs] at hd
    cases k with
    | ingress => exact ⟨by decide, (Option.some.inj hd).symm⟩
    | service => exact ⟨by decide, (Option.some.inj hd).symm⟩
    | secret => exact ⟨by decide, (Option.some.inj hd).symm⟩
    | _ => cases hd
  have hrun : (deltaOf k ([] ++ c.events as)).Accounts i (c.held k i) ((c.run as).held k i)
      (False ∨ ∃ bs, bs <+: as ∧ (c.run bs).Mistakes k i) :=
    accounts_run hans htidy hk.1 hblank (Delta.accounts_self _ i _ False)
  rw [hk.2]
  exact hrun.weaken fun h => h.resolve_left id

def shopOf (className : String) : Ingress :=
  ⟨.ofKey ⟨"default", "shop"⟩, some ⟨some className⟩⟩

/-- An ingress of the controller is given to another one, and listed as gone. -/
theorem deltas_account_of_handover :
    let before : List Action := [.observe .ingress (.apply (shopOf "haul"))]
    let as : List Action := [.observe .ingress (.apply (shopOf "other"))]
    let c := (start .default Settings.default.acmeKeys (.files .empty)).run (before ++ [.publish])
    identity (shopOf "haul") ∈ (c.run as).publish.2.ingresses.del.map identity := by
  intro before as c
  have hfull : (c.run as).publish.2.fullSync = false := by decide +kernel
  have hthere : c.held .ingress (identity (shopOf "haul")) ≠ none := by decide +kernel
  have hgone : (c.run as).held .ingress (identity (shopOf "haul")) = none := by decide +kernel
  exact (deltas_account .default Settings.default.acmeKeys (fun _ => rfl) before
    (by simp [as]) (k := .ingress) _ hfull rfl).gone hthere hgone

/-- A service arrives while the lister has its namesake: it is new, and listed as changed. -/
theorem arrival_listed_as_update :
    let c := (start .default Settings.default.acmeKeys (.files .empty)).run
      [.observe .service (.apply namesake), .publish]
    let as : List Action := [.observe .service (.apply web)]
    (c.run as).publish.2.fullSync = false ∧ c.held .service (identity web) = none ∧
      (c.run as).held .service (identity web) = some web ∧
      (c.run as).publish.2.services = ⟨[], [web], []⟩ := by
  decide +kernel

end Controller

end IngressCache
