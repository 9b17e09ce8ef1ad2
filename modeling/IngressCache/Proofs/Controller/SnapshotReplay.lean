import IngressCache.Proofs.Controller.Completeness
import IngressCache.Proofs.Watch.Replay

/-!
# Replay of a snapshot

From one publish to the next the objects of a kind go the way of the changes that arrive. The lists
of the next snapshot lead to the same object, unless its last change is overtaken: an object that
came and went between the publishes is listed as new, and a replay has it again.
-/

namespace IngressCache

theorem deltaOf_eq (k : Kind) (w : List Event) :
    deltaOf k w = .of (w.filterMap (Event.change? k)) := by
  simp only [deltaOf, deletions, updates, additions, Delta.of, List.filterMap_filterMap]

/-! ### One step of a watch -/

section Steps

variable {f : ClassFilter} {t : TrackedKeys} {k : Kind} {l : Lister k.Object}

/-- What is handed on of a step. -/
def Lister.tells (f : ClassFilter) (t : TrackedKeys) (l : Lister k.Object)
    (e : WatchEvent k.Object) : Option (Change k.Object) :=
  ((l.report e).event? f t k).bind (Event.change? k)

theorem Lister.tells_apply (l : Lister k.Object) (o : k.Object) :
    l.tells f t (.apply o) = handed f t k ⟨l.get? (identity o), some o⟩ :=
  handed_bind _

theorem Lister.tells_delete (l : Lister k.Object) (o : k.Object) :
    l.tells f t (.delete o) = handed f t k ⟨some ((l.get? (identity o)).getD o), none⟩ :=
  handed_bind _

theorem follow_eq (r : Replica k.Object) {e : WatchEvent k.Object} (he : e ≠ .initDone) :
    r.follow f t k l e = (l.tells f t e).toList.foldl Replica.apply r := by
  have hchange : ∀ c : Change k.Object, l.report e = .change c →
      r.follow f t k l e = (l.tells f t e).toList.foldl Replica.apply r := by
    intro c hc
    rw [Replica.follow, Lister.tells, hc, handed_bind, Report.event?_change]
    cases handed f t k c with
    | none => rfl
    | some d => exact Replica.receive_change _ _ _
  have hnothing : l.report e = .nothing →
      r.follow f t k l e = (l.tells f t e).toList.foldl Replica.apply r := by
    intro hc
    have hevent : (l.report e).event? f t k = none := by
      rw [hc]
      cases k <;> rfl
    rw [Replica.follow, Lister.tells, hevent]
    rfl
  cases e with
  | apply o => exact hchange _ rfl
  | delete o => exact hchange _ rfl
  | init => exact hnothing rfl
  | initApply o => exact hnothing rfl
  | initDone => exact absurd rfl he

/-- The objects of interest go the way of what is handed on, if no step takes away another object
than its own. -/
theorem shown_step (hk : k ≠ .configMap) (h : l.Tidy) {e : WatchEvent k.Object}
    (he : e ≠ .initDone)
    (hown : ∀ p, (l.tells f t e).bind Change.deleted? = some p →
      e.object?.map identity = some (identity p)) :
    (l.step e).shown (ofInterest f t k) =
      (l.tells f t e).toList.foldl Replica.apply (l.shown (ofInterest f t k)) := by
  by_cases hm : Misread f t k l e
  · -- What is misread is another object: to take it away is excluded, and it can do no other harm.
    cases hm with
    | renamed hp hne => exact absurd rfl hk
    | @deleted _ _ o p c hp hc =>
      rw [Lister.tells_delete, hp.get?_eq, Option.getD_some, hc] at hown
      rw [handed_removed] at hc
      split at hc
      · obtain rfl := Option.some.inj hc
        exact absurd (Option.some.inj (hown p rfl)).symm (hp.identity_ne h)
      · cases hc
    | @applied _ _ o p c hp hc hold =>
      rw [Lister.tells_apply, hp.get?_eq, hc] at hown ⊢
      rw [handed_updated] at hc
      cases hmp : ofInterest f t k p <;> cases hmo : ofInterest f t k o <;>
        simp only [hmp, hmo, if_neg hk] at hc
      case true.true =>
        obtain rfl := Option.some.inj hc
        rw [Lister.shown_apply, Option.filter_some_pos hmo]
        exact (Replica.apply_put _ (some p) o).symm
      case true.false =>
        obtain rfl := Option.some.inj hc
        exact absurd (Option.some.inj (hown p rfl)).symm (hp.identity_ne h)
      case false.true =>
        obtain rfl := Option.some.inj hc
        cases hold
      case false.false => cases hc
  · rw [← follow_eq _ he, ((faithful_iff_not_misread h e).2 hm).copies,
      Replica.of_listed (h.step e)]

end Steps

namespace Controller

/-! ### Windows -/

/-- Every action but a publish, an event that no lister saw, and the end of a listing. -/
def Action.isOrdinary : Action → Bool
  | .publish | .notify _ | .observe _ .initDone => false
  | _ => true

/-- The identity of the object that an action shows to a lister. -/
def Action.subject? : Action → Option Identity
  | .observe _ e => e.object?.map identity
  | _ => none

/-- The action takes away an object of the kind that is not its own: the lister does not have the
object of the action, and takes one without a namespace for it. -/
def strays (c : Controller) (k : Kind) (a : Action) : Bool :=
  (((c.event? a).bind (Event.change? k)).bind Change.deleted?).any fun p =>
    a.subject? ≠ some (identity p)

/-- No action of a run strays. -/
def Straight (c : Controller) (k : Kind) : List Action → Prop
  | [] => True
  | a :: as => c.strays k a = false ∧ (c.act a).Straight k as

/-- The changes of a kind that arrive in a run. -/
def changes (c : Controller) (k : Kind) (as : List Action) : List (Change k.Object) :=
  (c.events as).filterMap (Event.change? k)

theorem changes_cons (c : Controller) (k : Kind) (a : Action) (as : List Action) :
    c.changes k (a :: as) =
      ((c.event? a).bind (Event.change? k)).toList ++ (c.act a).changes k as := by
  unfold changes
  rw [events, List.filterMap_append]
  cases c.event? a with
  | none => rfl
  | some e => cases h : e.change? k <;> simp [h]

theorem change?_observe_of_ne {j k : Kind} (h : k ≠ j) (c : Controller)
    (e : WatchEvent j.Object) :
    (c.event? (.observe j e)).bind (Event.change? k) = none := by
  rw [event?_observe]
  cases c.listers.of j with
  | none => rfl
  | some l =>
    rw [Option.bind_some]
    cases e with
    | init | initApply o | initDone => cases j <;> cases k <;> rfl
    | apply o | delete o =>
      rw [Lister.report, Report.event?_change]
      cases handed c.classFilter c.aggregator.tracked j _ with
      | none => rfl
      | some d =>
        cases j <;> cases k <;> first | rfl | exact absurd rfl h

theorem held_act_of_isOrdinary {c : Controller} (h : ∀ call, c.store.answers call = true)
    (htidy : c.Tidy) {k : Kind} (hk : k ≠ .configMap) {a : Action} (ha : a.isOrdinary = true)
    (hown : c.strays k a = false) :
    (c.act a).held k =
      ((c.event? a).bind (Event.change? k)).toList.foldl Replica.apply (c.held k) := by
  rw [held_act h, listers_act]
  unfold held
  cases a with
  | observe j e =>
    by_cases hj : k = j
    · subst hj
      rw [strays, event?_observe, Option.any_eq_false] at hown
      rw [event?_observe]
      simp only
      rw [Listers.of_step_self]
      cases hl : c.listers.of k with
      | none => rfl
      | some l =>
        rw [hl] at hown
        have he : e ≠ .initDone := by
          rintro rfl
          cases ha
        exact shown_step hk (htidy k l hl) he fun p hp =>
          not_not.1 (of_decide_eq_false (hown p hp))
    · rw [change?_observe_of_ne hj]
      simp only
      rw [Listers.of_step_ne hj]
      rfl
  | notify e => cases ha
  | _ => rfl

theorem held_run {c : Controller} (h : ∀ call, c.store.answers call = true) (htidy : c.Tidy)
    {k : Kind} (hk : k ≠ .configMap) {as : List Action}
    (has : ∀ a ∈ as, a.isOrdinary = true) (hstraight : c.Straight k as) :
    (c.run as).held k = (c.changes k as).foldl Replica.apply (c.held k) := by
  induction as generalizing c with
  | nil => rfl
  | cons a as ih =>
    obtain ⟨hown, hrest⟩ := hstraight
    rw [run_cons, changes_cons, List.foldl_append,
      ← held_act_of_isOrdinary h htidy hk (has a List.mem_cons_self) hown]
    exact ih (answers_act h a) (htidy.act a) (fun b hb => has b (List.mem_cons_of_mem _ hb)) hrest

/-- What a snapshot lists of a kind are the changes since the publish before it. -/
theorem delta?_publish {c : Controller} {before : List Event} (hc : c.Gathers before [])
    (h : ∀ call, c.store.answers call = true) {as : List Action} (has : .publish ∉ as) {k : Kind}
    {d : Delta k.Object} (hd : (c.run as).publish.2.delta? k = some d) :
    k ≠ .configMap ∧ d = .of (c.changes k as) := by
  have hend := hc.run h has
  rw [List.nil_append] at hend
  have hs : (c.run as).publish.2 = (Pending.ofEvents (c.run as).aggregator.tracked before
      (c.events as)).snapshot := congrArg Pending.snapshot hend
  rw [hs] at hd
  rw [changes, ← deltaOf_eq]
  cases k with
  | ingress => exact ⟨by decide, (Option.some.inj hd).symm⟩
  | service => exact ⟨by decide, (Option.some.inj hd).symm⟩
  | secret => exact ⟨by decide, (Option.some.inj hd).symm⟩
  | _ => cases hd

/-- From what is held at one publish the lists of the next snapshot lead to what is held then, for
every object but those whose last change is overtaken. -/
theorem replay_eq_iff_not_overtaken (settings : Settings) (acme : Except KeyFault AcmeKeys)
    {store : SecretStore} (hstore : ∀ call, store.answers call = true) (before : List Action)
    {as : List Action} (has : ∀ a ∈ as, a.isOrdinary = true) {k : Kind} {d : Delta k.Object} :
    let c := (start settings acme store).run (before ++ [.publish])
    c.Straight k as → (c.run as).publish.2.delta? k = some d → ∀ i,
      ((c.held k).replay d i = (c.run as).held k i ↔ ¬Overtaken (changesOf i (c.changes k as))) := by
  intro c hstraight hd i
  have hans : ∀ call, c.store.answers call = true := answers_run hstore _
  have htidy : c.Tidy := (tidy_start settings acme store).run _
  obtain ⟨past, w, hopen⟩ :=
    exists_gathers_run (gathers_start settings acme store) hstore before
  have hc : c.Gathers (past ++ w) [] := by
    show ((start settings acme store).run (before ++ [.publish])).Gathers _ _
    rw [run_append]
    exact hopen.publish
  have hpublish : .publish ∉ as := by
    intro hmem
    cases has _ hmem
  obtain ⟨hk, rfl⟩ := delta?_publish hc hans hpublish hd
  rw [held_run hans htidy hk has hstraight]
  exact Replica.replay_eq_iff _ _ i

def webSelecting (selector : Texts) : Service :=
  ⟨.ofKey ⟨"default", "web"⟩, some ⟨some selector⟩⟩

/-- A service is deleted and comes back in another state. -/
theorem replay_eq_of_return :
    let before : List Action := [.observe .service (.apply web)]
    let as : List Action := [.observe .service (.delete web),
      .observe .service (.apply (webSelecting .empty))]
    let c := (start .default Settings.default.acmeKeys (.files .empty)).run (before ++ [.publish])
    (c.held .service).replay ⟨[web], [], [webSelecting .empty]⟩ (identity web) =
      (c.run as).held .service (identity web) := by
  intro before as c
  have hstraight : c.Straight .service as := ⟨by decide +kernel, by decide +kernel, trivial⟩
  have hchanges : changesOf (identity web) (c.changes .service as) =
      [⟨some web, none⟩] ++ [⟨none, some (webSelecting .empty)⟩] := by decide +kernel
  have hd : (c.run as).publish.2.delta? .service = some ⟨[web], [], [webSelecting .empty]⟩ := by
    decide +kernel
  refine (replay_eq_iff_not_overtaken .default Settings.default.acmeKeys (fun _ => rfl) before
    (by simp [as, Action.isOrdinary]) hstraight hd (identity web)).2 ?_
  rw [hchanges]
  exact not_overtaken_added _ _

/-- A service comes and goes between two publishes. It is listed as gone and as new, and a replay
has it. -/
theorem replay_ne_of_short_life :
    let c := (start .default Settings.default.acmeKeys (.files .empty)).run [.publish]
    let as : List Action := [.observe .service (.apply web), .observe .service (.delete web)]
    (∀ a ∈ as, a.isOrdinary = true) ∧ c.Straight .service as ∧
      (c.run as).publish.2.fullSync = false ∧
      (c.run as).publish.2.services = ⟨[web], [], [web]⟩ ∧
      (c.held .service).replay ⟨[web], [], [web]⟩ (identity web) = some web ∧
      (c.run as).held .service (identity web) = none := by
  intro c as
  refine ⟨by simp [as, Action.isOrdinary], ⟨by decide +kernel, by decide +kernel, trivial⟩, ?_⟩
  decide +kernel

end Controller

end IngressCache
