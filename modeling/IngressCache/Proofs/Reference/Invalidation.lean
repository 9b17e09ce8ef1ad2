import IngressCache.Proofs.Controller.Activity
import IngressCache.Proofs.Reference.AccessPolicy

/-!
# Invalidation

A lookup of a secret is recorded under a text, and a change of a secret is answered under the
written key of the object. The two agree for every form of a reference and every outcome of the
lookup, so the targets that depend on a secret are those that asked for it since they were last
cleared.
-/

namespace IngressCache

/-! ### What a lookup is recorded under -/

/-- The reference means that secret: in the namespace that it gives, else in the default one. -/
def Query.Names (q : Query) (k : Key) : Prop :=
  Key.parseIn q.ns q.reference = .ok k

/-- What a lookup is recorded under: the secret that the reference leads to, or the reference as it
was written if it is rejected. -/
def Policy.recorded (p : Policy) (q : Query) : String :=
  match p.resolve q.ns q.reference with
  | .ok key => key.path
  | .error _ => q.reference

theorem Policy.recorded_of_names (p : Policy) {q : Query} {k : Key} (h : q.Names k) :
    p.recorded q = k.path := by
  have hread : Key.parseIn q.ns q.reference = .ok k := h
  unfold recorded
  rw [resolve_eq, hread]
  by_cases hadmits : p.Admits q.ns k.ns
  · simp only [if_pos hadmits]
  · -- A reference that is denied gives its namespace, so it is the written key itself.
    obtain ⟨hown, hns⟩ := parse_of_not_admits hread hadmits
    simp only [if_neg hadmits]
    rw [← Key.text_of_ns_ne_empty hns]
    exact (Key.text_of_parse hown hns).symm

/-- Whatever becomes of a lookup, it is recorded under the written key of the secret that it means;
a reference without a meaning is no written key. -/
theorem Policy.recorded_eq_path_iff (p : Policy) (q : Query) {k : Key} (hk : k.Legible) :
    p.recorded q = k.path ↔ q.Names k := by
  cases h : Key.parseIn q.ns q.reference with
  | error f =>
    have hrecorded : p.recorded q = q.reference := by
      unfold recorded
      rw [resolve_eq, h]
    refine ⟨fun he => ?_, fun hnames => nomatch h.symm.trans hnames⟩
    rw [← hrecorded, he, Key.parseIn_of_parse (Key.parse_path hk)] at h
    cases h
  | ok j =>
    rw [p.recorded_of_names h, Query.Names, h, Except.ok.injEq]
    exact ⟨Key.eq_of_path_eq (Key.plain_of_parseIn h).1 hk, congrArg Key.path⟩

theorem Resolution.run_dependency {α : Type} (policy : Policy) (store : SecretStore) (q : Query)
    (ask : SecretStore → Key → SecretStore × Except Failure α) :
    (run policy store q ask).dependency =
      ⟨q.target, ⟨!(run policy store q ask).found, .secret, policy.recorded q⟩⟩ := by
  unfold run Policy.recorded
  cases policy.resolve q.ns q.reference with
  | error f => rfl
  | ok key =>
    simp only
    generalize ask store key = answer
    rcases answer with ⟨st, _ | _⟩ <;> rfl

/-! ### Targets of an object -/

namespace Tracker

theorem mem_targetsFor {t : Tracker} {kind : Kind} {id : String} {target : Target} :
    target ∈ t.targetsFor kind id ↔
      ∃ missing, ⟨target, ⟨missing, kind, id⟩⟩ ∈ t.dependencies := by
  unfold targetsFor
  rw [List.mem_eraseDups, List.mem_map]
  constructor
  · rintro ⟨⟨u, missing, kind', id'⟩, hd, rfl⟩
    obtain ⟨hmem, hedge⟩ := List.mem_filter.1 hd
    obtain ⟨rfl, rfl⟩ : kind' = kind ∧ id' = id := by simpa using hedge
    exact ⟨missing, hmem⟩
  · rintro ⟨missing, hd⟩
    exact ⟨_, List.mem_filter.2 ⟨hd, by simp⟩, rfl⟩

theorem mem_targetsFor_track {t : Tracker} {d : Dependency} {kind : Kind} {id : String}
    {target : Target} :
    target ∈ (t.track d).targetsFor kind id ↔
      target ∈ t.targetsFor kind id ∨
        d.target = target ∧ d.edge.kind = kind ∧ d.edge.id = id := by
  simp only [mem_targetsFor, mem_track, exists_or]
  constructor
  · rintro (⟨missing, rfl⟩ | h)
    · exact .inr ⟨rfl, rfl, rfl⟩
    · exact .inl h
  · rintro (h | ⟨rfl, rfl, rfl⟩)
    · exact .inr h
    · exact .inl ⟨d.edge.missing, rfl⟩

theorem mem_targetsFor_clearTarget {t : Tracker} {kind : Kind} {id : String}
    {target cleared : Target} :
    target ∈ (t.clearTarget cleared).targetsFor kind id ↔
      target ≠ cleared ∧ target ∈ t.targetsFor kind id := by
  simp only [mem_targetsFor, clearTarget, List.mem_filter, decide_eq_true_eq]
  constructor
  · rintro ⟨missing, hmem, hne⟩
    exact ⟨hne, missing, hmem⟩
  · rintro ⟨hne, missing, hmem⟩
    exact ⟨missing, hmem, hne⟩

theorem mem_targetsFor_foldl_track {kind : Kind} {ds : List Dependency}
    (hds : ∀ d ∈ ds, d.edge.kind ≠ kind) (t : Tracker) {id : String} {target : Target} :
    target ∈ (ds.foldl track t).targetsFor kind id ↔ target ∈ t.targetsFor kind id := by
  induction ds generalizing t with
  | nil => rfl
  | cons d ds ih =>
    rw [List.foldl_cons, ih fun e he => hds e (List.mem_cons_of_mem _ he), mem_targetsFor_track]
    have hd := hds d List.mem_cons_self
    exact ⟨fun h => h.resolve_right fun he => hd he.2.1, .inl⟩

end Tracker

namespace Controller

/-! ### The tracker after an action -/

def Action.query? : Action → Option Query
  | .tls q | .ca q | .dh q | .content q _ => some q
  | _ => none

theorem tracker_receive (c : Controller) (e : Event) : (c.receive e).tracker = c.tracker := by
  unfold receive
  split <;> rfl

theorem tracker_callStore (c : Controller) (call : StoreCall) :
    (c.callStore call).1.tracker = c.tracker := by
  unfold callStore
  cases c.store.isObserved <;> simp only [if_true, Bool.false_eq_true, if_false] <;> split <;> rfl

theorem tracker_notify (c : Controller) (e : Event) : (c.notify e).1.tracker = c.tracker := by
  unfold notify
  cases e.storeCall with
  | none => exact tracker_receive _ e
  | some call =>
    have hcall := tracker_callStore (c.warn (c.aggregator.lockWarnings .write)) call
    rcases hcs : (c.warn (c.aggregator.lockWarnings .write)).callStore call with ⟨c', _ | _⟩
    · rw [hcs] at hcall
      simp only [hcs]
      exact hcall
    · rw [hcs] at hcall
      simp only [hcs]
      exact (tracker_receive c' e).trans hcall

theorem tracker_act_of_query?_none (c : Controller) {a : Action} (h : a.query? = none) :
    (c.act a).tracker = c.tracker := by
  cases a with
  | observe k e =>
    rw [act_observe]
    split
    · rfl
    · exact tracker_notify _ _
  | notify e => exact tracker_notify c e
  | publish => rfl
  | certificate key => rfl
  | _ => cases h

theorem tracker_conclude {α : Type} (c : Controller) (w : Wanted) (q : Query)
    (ask : SecretStore → Key → SecretStore × Except Failure α) :
    ∃ missing, (c.conclude w (Resolution.run c.policy c.store q ask)).1.tracker =
      c.tracker.track ⟨q.target, ⟨missing, .secret, c.policy.recorded q⟩⟩ := by
  refine ⟨!(Resolution.run c.policy c.store q ask).found, ?_⟩
  rw [← Resolution.run_dependency]
  rfl

theorem tracker_act_of_query? (c : Controller) {a : Action} {q : Query} (h : a.query? = some q) :
    ∃ missing, (c.act a).tracker =
      c.tracker.track ⟨q.target, ⟨missing, .secret, c.policy.recorded q⟩⟩ := by
  cases a with
  | tls q' | ca q' | dh q' | content q' name =>
    obtain rfl := Option.some.inj h
    exact tracker_conclude c _ q' _
  | _ => cases h

/-! ### Activities -/

/-- What can happen to a controller and its tracker. -/
inductive Activity
  | act (a : Action)
  /-- The pods of a service that are about to go away are looked up. -/
  | terminating (s : Service) (target : Target)
  /-- A target is about to be built again. -/
  | clear (target : Target)

namespace Activity

def query? : Activity → Option Query
  | .act a => a.query?
  | _ => none

/-- The target asked for a secret as `P` says, and was not cleared after that. -/
def AskedSince (xs : List Activity) (target : Target) (P : Query → Prop) : Prop :=
  ∃ before x after q, xs = before ++ x :: after ∧ x.query? = some q ∧ q.target = target ∧ P q ∧
    .clear target ∉ after

theorem askedSince_cons {x : Activity} {xs : List Activity} {target : Target}
    {P : Query → Prop} :
    AskedSince (x :: xs) target P ↔
      (∃ q, x.query? = some q ∧ q.target = target ∧ P q ∧ .clear target ∉ xs) ∨
        AskedSince xs target P := by
  constructor
  · rintro ⟨_ | ⟨y, before⟩, z, after, q, heq, hq⟩
    · obtain ⟨rfl, rfl⟩ := List.cons.inj heq
      exact .inl ⟨q, hq⟩
    · obtain ⟨rfl, rfl⟩ := List.cons.inj heq
      exact .inr ⟨before, z, after, q, rfl, hq⟩
  · rintro (⟨q, hq⟩ | ⟨before, z, after, q, rfl, hq⟩)
    · exact ⟨[], x, xs, q, rfl, hq⟩
    · exact ⟨x :: before, z, after, q, rfl, hq⟩

end Activity

def perform (c : Controller) : Activity → Controller
  | .act a => c.act a
  | .terminating s target => (c.terminatingPods s target).1
  | .clear target => { c with tracker := c.tracker.clearTarget target }

def performAll (c : Controller) (xs : List Activity) : Controller :=
  xs.foldl perform c

theorem performAll_cons (c : Controller) (x : Activity) (xs : List Activity) :
    c.performAll (x :: xs) = (c.perform x).performAll xs := rfl

theorem foldl_track (c : Controller) (ds : List Dependency) :
    ds.foldl track c = { c with
      tracker := ds.foldl Tracker.track c.tracker
      record := { c.record with dependencies := c.record.dependencies ++ ds } } := by
  induction ds generalizing c with
  | nil => simp
  | cons d ds ih =>
    rw [List.foldl_cons, ih]
    simp [track]

theorem settings_terminatingPods (c : Controller) (s : Service) (target : Target) :
    (c.terminatingPods s target).1.settings = c.settings := by
  unfold terminatingPods
  split
  · rfl
  · rw [foldl_track]

theorem policy_perform (c : Controller) (x : Activity) : (c.perform x).policy = c.policy := by
  have hsettings : (c.perform x).settings = c.settings := by
    cases x with
    | act a => exact settings_act c a
    | terminating s target => exact settings_terminatingPods c s target
    | clear target => rfl
  unfold policy
  rw [hsettings]

theorem mem_targetsFor_terminatingPods (c : Controller) (s : Service) (for' : Target)
    {id : String} {target : Target} :
    target ∈ (c.terminatingPods s for').1.tracker.targetsFor .secret id ↔
      target ∈ c.tracker.targetsFor .secret id := by
  unfold terminatingPods
  split
  · rfl
  · rename_i pods _
    rw [foldl_track]
    refine Tracker.mem_targetsFor_foldl_track (fun d hd => ?_) _
    obtain ⟨p, -, rfl⟩ := List.mem_map.1 hd
    exact Kind.noConfusion

/-- One activity adds the target that asks, and takes away the target that is cleared. -/
theorem mem_targetsFor_perform (c : Controller) (x : Activity) {id : String} {target : Target} :
    target ∈ (c.perform x).tracker.targetsFor .secret id ↔
      x ≠ .clear target ∧ (target ∈ c.tracker.targetsFor .secret id ∨
        ∃ q, x.query? = some q ∧ q.target = target ∧ c.policy.recorded q = id) := by
  cases x with
  | act a =>
    cases hq : a.query? with
    | none =>
      have hnone : (Activity.act a).query? = none := hq
      simp [perform, tracker_act_of_query?_none c hq, hnone]
    | some q =>
      have hsome : (Activity.act a).query? = some q := hq
      obtain ⟨missing, htracker⟩ := tracker_act_of_query? c hq
      simp [perform, htracker, Tracker.mem_targetsFor_track, hsome]
  | terminating s for' => simp [perform, mem_targetsFor_terminatingPods, Activity.query?]
  | clear cleared =>
    simp [perform, Tracker.mem_targetsFor_clearTarget, Activity.query?, eq_comm]

theorem mem_targetsFor_performAll (c : Controller) (xs : List Activity) {id : String}
    {target : Target} :
    target ∈ (c.performAll xs).tracker.targetsFor .secret id ↔
      target ∈ c.tracker.targetsFor .secret id ∧ .clear target ∉ xs ∨
        Activity.AskedSince xs target fun q => c.policy.recorded q = id := by
  induction xs generalizing c with
  | nil =>
    simp [performAll, Activity.AskedSince]
  | cons x xs ih =>
    rw [performAll_cons, ih, policy_perform, mem_targetsFor_perform, Activity.askedSince_cons,
      List.mem_cons, not_or]
    constructor
    · rintro (⟨⟨hx, hold | ⟨q, hq, ht, hid⟩⟩, hxs⟩ | hlater)
      · exact .inl ⟨hold, Ne.symm hx, hxs⟩
      · exact .inr (.inl ⟨q, hq, ht, hid, hxs⟩)
      · exact .inr (.inr hlater)
    · rintro (⟨hold, hx, hxs⟩ | ⟨q, hq, ht, hid, hxs⟩ | hlater)
      · exact .inl ⟨⟨Ne.symm hx, .inl hold⟩, hxs⟩
      · refine .inl ⟨⟨?_, .inr ⟨q, hq, ht, hid⟩⟩, hxs⟩
        rintro rfl
        cases hq
      · exact .inr hlater

/-- The targets that depend on a secret are those that asked for it since they were last cleared,
whether it was found, missing, unusable or denied to them. -/
theorem mem_targetsFor_iff_asked (settings : Settings) (acme : Except KeyFault AcmeKeys)
    (store : SecretStore) (xs : List Activity) {s : Secret} {k : Key} (hk : k.Legible)
    (hns : s.metadata.ns = some k.ns) (hname : s.metadata.name = some k.name) (target : Target) :
    target ∈ ((start settings acme store).performAll xs).tracker.targetsFor .secret
        (objectKey s) ↔
      ∃ before x after q, xs = before ++ x :: after ∧ x.query? = some q ∧ q.target = target ∧
        q.Names k ∧ .clear target ∉ after := by
  have hpath : objectKey s = k.path := by
    simp only [objectKey, Metadata.key, Metadata.nsOrEmpty, Metadata.nameOrEmpty]
    rw [show ClusterObject.metadata s = s.metadata from rfl, hns, hname]
    rfl
  have hempty : target ∉ (start settings acme store).tracker.targetsFor .secret k.path := by
    rw [Tracker.mem_targetsFor]
    rintro ⟨missing, hmem⟩
    cases hmem
  rw [hpath, mem_targetsFor_performAll]
  simp only [hempty, false_and, false_or, Activity.AskedSince, Policy.recorded_eq_path_iff _ _ hk]

/-- A lookup across namespaces that is denied, and one of a target that is cleared afterwards. -/
def deniedAndCleared : List Activity :=
  [.act (.content ⟨"a", "b/ca", .hostname "x"⟩ "ca.crt"), .act (.tls ⟨"b", "ca", .global⟩),
    .clear .global]

theorem mem_targetsFor_iff_asked_of_denied :
    .hostname "x" ∈ ((start .default Settings.default.acmeKeys (.files .empty)).performAll
        deniedAndCleared).tracker.targetsFor .secret
        (objectKey (Secret.ofAuthorities ⟨"b", "ca"⟩ [65] [66])) ∧
      .global ∉ ((start .default Settings.default.acmeKeys (.files .empty)).performAll
        deniedAndCleared).tracker.targetsFor .secret
        (objectKey (Secret.ofAuthorities ⟨"b", "ca"⟩ [65] [66])) := by
  have hasked := mem_targetsFor_iff_asked .default Settings.default.acmeKeys (.files .empty)
    deniedAndCleared (s := Secret.ofAuthorities ⟨"b", "ca"⟩ [65] [66]) (k := ⟨"b", "ca"⟩)
    (by decide) rfl rfl
  refine ⟨(hasked _).2 ⟨[], _, _, _, rfl, rfl, rfl, rfl, by simp⟩, fun hmem => ?_⟩
  obtain ⟨before, x, after, q, heq, hq, htarget, -, hclear⟩ := (hasked _).1 hmem
  unfold deniedAndCleared at heq
  rcases before with _ | ⟨_, _ | ⟨_, _ | ⟨_, _⟩⟩⟩
  · obtain ⟨rfl, rfl⟩ := List.cons.inj heq
    obtain rfl := Option.some.inj hq
    cases htarget
  · obtain ⟨rfl, rfl⟩ := List.cons.inj (List.cons.inj heq).2
    exact hclear List.mem_cons_self
  · obtain ⟨rfl, rfl⟩ := List.cons.inj (List.cons.inj (List.cons.inj heq).2).2
    cases hq
  · simp at heq

end Controller

end IngressCache
