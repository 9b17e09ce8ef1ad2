import IngressCache.Proofs.Controller.Lookups
import IngressCache.Proofs.Watch.Replica
import Mathlib.Data.List.Nodup

/-!
# Pods that are about to go away

A service selects the pods of its namespace by their labels. All of them become dependencies of the
target that asks, each under the written key that the watch reports a change of it under; those
that are being deleted and can still be reached are the answer. A selector that is not there has
no pair that a label could fail, so a service without one is given every pod of its namespace.
-/

namespace IngressCache

/-! ### Lists of entries and of objects -/

theorem Dict.mem_toList {β : Type} {d : Dict β} {k : String} {v : β} :
    (k, v) ∈ d.toList ↔ d.get? k = some v := by
  unfold toList get?
  constructor
  · intro hmem
    obtain ⟨before, after, hsplit⟩ := List.append_of_mem hmem
    have hsorted := d.sorted
    rw [hsplit, List.pairwise_append] at hsorted
    refine List.lookup_eq_some_iff.2 ⟨before, after, hsplit, fun e he => ?_⟩
    have hlt : e.1 < k := hsorted.2.2 e he (k, v) List.mem_cons_self
    have hne : k ≠ e.1 := fun heq => String.lt_irrefl _ (heq ▸ hlt)
    simpa using hne
  · intro hget
    obtain ⟨before, after, hsplit, -⟩ := List.lookup_eq_some_iff.1 hget
    rw [hsplit]
    exact List.mem_append_right _ List.mem_cons_self

theorem Lister.nodup_toList {α : Type} [ClusterObject α] {l : Lister α} (h : l.Tidy) :
    l.toList.Nodup := by
  have hkeys : l.toList.map identity = l.objects.entries.map Prod.fst := by
    unfold toList Table.values
    rw [List.map_map]
    refine List.map_congr_left fun e he => ?_
    exact h.identity_eq (Entries.lookup_of_mem l.objects.nodup he)
  refine List.Nodup.of_map identity ?_
  rw [hkeys]
  exact l.objects.nodup

/-! ### Selection -/

/-- The pod is in the namespace of the service, and its labels have every pair of the selector. -/
def Service.Selects (s : Service) (p : Pod) : Prop :=
  p.metadata.ns = some s.metadata.nsOrEmpty ∧
    ∀ k v, s.selector.get? k = some v →
      ∃ labels, p.metadata.labels = some labels ∧ labels.get? k = some v

/-- The pod is being deleted, was not lost with its node, and has an address. -/
def Pod.Terminating (p : Pod) : Prop :=
  p.metadata.deleting = true ∧
    ∃ status, p.status = some status ∧ status.reason ≠ some "NodeLost" ∧
      ∃ ip, status.ip = some ip ∧ ip ≠ ""

theorem labelsMatch_iff (labels : Option Texts) (selector : Texts) :
    labelsMatch labels selector = true ↔
      ∀ k v, selector.get? k = some v → ∃ own, labels = some own ∧ own.get? k = some v := by
  unfold labelsMatch
  simp only [List.all_eq_true, Prod.forall, Dict.mem_toList, beq_iff_eq, Option.bind_eq_some_iff]

theorem Pod.isTerminating_iff (p : Pod) : p.isTerminating = true ↔ p.Terminating := by
  unfold isTerminating Terminating
  cases p.status with
  | none => simp
  | some status => cases hip : status.ip <;> simp [hip, nodeLost, and_assoc]

namespace Service

variable {s : Service} {l : Lister Pod} {p : Pod}

theorem mem_select_iff :
    p ∈ l.select s.metadata.nsOrEmpty s.selector ↔ p ∈ l.toList ∧ s.Selects p := by
  unfold Lister.select Selects
  rw [List.mem_filter, Bool.and_eq_true, labelsMatch_iff, beq_iff_eq]
  rfl

/-- The service has no selector, or an empty one. -/
def Unselective (s : Service) : Prop :=
  s.spec = none ∨ ∃ spec, s.spec = some spec ∧
    (spec.selector = none ∨ spec.selector = some Dict.empty)

/-- The pods in the namespace of the service, whatever their labels. -/
def neighbours (s : Service) (l : Lister Pod) : List Pod :=
  l.toList.filter fun p => p.metadata.ns = some s.metadata.nsOrEmpty

theorem Unselective.selector_eq (h : s.Unselective) : s.selector = Dict.empty := by
  unfold selector
  rcases h with hspec | ⟨spec, hspec, hnone | hempty⟩
  · rw [hspec]
    rfl
  · rw [hspec, Option.bind_some, hnone]
    rfl
  · rw [hspec, Option.bind_some, hempty]
    rfl

theorem Unselective.select_eq (h : s.Unselective) (l : Lister Pod) :
    l.select s.metadata.nsOrEmpty s.selector = s.neighbours l := by
  have hmatch : ∀ labels, labelsMatch labels s.selector = true := by
    intro labels
    rw [h.selector_eq]
    rfl
  unfold Lister.select neighbours
  refine List.filter_congr fun p _ => ?_
  rw [hmatch, Bool.and_true]
  exact beq_eq_decide _ _

theorem neighbours_eq_nil_iff :
    s.neighbours l = [] ↔ ∀ p ∈ l.toList, p.metadata.ns ≠ some s.metadata.nsOrEmpty := by
  simp [neighbours, List.filter_eq_nil_iff]

/-- A selected pod is recorded under its own key. -/
theorem podDependency_of_selects (h : s.Selects p) (target : Target) :
    s.podDependency target p = ⟨target, ⟨false, .pod, objectKey p⟩⟩ := by
  have hns : p.metadata.nsOrEmpty = s.metadata.nsOrEmpty := by
    unfold Metadata.nsOrEmpty
    rw [h.1]
    rfl
  unfold podDependency objectKey Metadata.key
  rw [← hns]
  rfl

end Service

/-! ### Dependencies that stay -/

theorem Tracker.mem_dependencies_foldl_track {ds : List Dependency} (t : Tracker)
    {d : Dependency} :
    d ∈ (ds.foldl track t).dependencies ↔ d ∈ t.dependencies ∨ d ∈ ds := by
  induction ds generalizing t with
  | nil => simp
  | cons e ds ih =>
    rw [List.foldl_cons, ih, mem_track, List.mem_cons, or_assoc, or_left_comm]

namespace Controller

/-- A target that depends on an object keeps doing so until it is cleared. -/
theorem mem_targetsFor_perform_of_mem {c : Controller} {kind : Kind} {id : String}
    {target : Target} (h : target ∈ c.tracker.targetsFor kind id) {x : Activity}
    (hx : x ≠ .clear target) : target ∈ (c.perform x).tracker.targetsFor kind id := by
  cases x with
  | act a =>
    show target ∈ (c.act a).tracker.targetsFor kind id
    cases hq : a.query? with
    | none =>
      rw [tracker_act_of_query?_none c hq]
      exact h
    | some q =>
      obtain ⟨missing, htracker⟩ := tracker_act_of_query? c hq
      rw [htracker]
      exact Tracker.mem_targetsFor_track.2 (.inl h)
  | terminating s for' =>
    show target ∈ (c.terminatingPods s for').1.tracker.targetsFor kind id
    unfold terminatingPods
    split
    · exact h
    · rw [foldl_track]
      obtain ⟨missing, hmem⟩ := Tracker.mem_targetsFor.1 h
      exact Tracker.mem_targetsFor.2
        ⟨missing, (Tracker.mem_dependencies_foldl_track _).2 (.inl hmem)⟩
  | clear cleared =>
    refine Tracker.mem_targetsFor_clearTarget.2 ⟨fun heq => hx ?_, h⟩
    rw [heq]

theorem mem_targetsFor_performAll_of_mem {c : Controller} {kind : Kind} {id : String}
    {target : Target} (h : target ∈ c.tracker.targetsFor kind id) {xs : List Activity}
    (hxs : .clear target ∉ xs) : target ∈ (c.performAll xs).tracker.targetsFor kind id := by
  induction xs generalizing c with
  | nil => exact h
  | cons x xs ih =>
    obtain ⟨hx, hrest⟩ := not_or.1 (mt List.mem_cons.2 hxs)
    exact ih (mem_targetsFor_perform_of_mem h (Ne.symm hx)) hrest

/-! ### The pods of a service -/

theorem terminatingPods_of_pods {c : Controller} {l : Lister Pod} (hl : c.listers.pods = some l)
    (s : Service) (target : Target) :
    let selected := l.select s.metadata.nsOrEmpty s.selector
    c.terminatingPods s target =
      ((selected.map fun p => ⟨target, ⟨false, .pod, objectKey p⟩⟩).foldl track c,
        .ok (selected.filter Pod.isTerminating)) := by
  intro selected
  have hds : selected.map (s.podDependency target) =
      selected.map fun p => ⟨target, ⟨false, .pod, objectKey p⟩⟩ :=
    List.map_congr_left fun p hp =>
      Service.podDependency_of_selects (Service.mem_select_iff.1 hp).2 target
  unfold terminatingPods Service.selectedPods
  rw [hl, ← hds]

/-- Without a lister of pods the lookup fails and nothing is recorded. With one, whatever the watch
of pods has brought to it, the answer are the selected pods that are about to go away; all selected
pods are recorded, each once and under its own key, and nothing else is. When a pod of that key
comes up later, the target is found under it unless it was cleared. -/
theorem terminatingPods_exact (c : Controller) (s : Service) (target : Target) :
    (c.listers.pods = none →
      c.terminatingPods s target = (c, .error (.malformed
        "pod lister wasn't started, remove --disable-pod-list to enable it"))) ∧
    ∀ es : List (WatchEvent Pod), c.listers.pods = some (es.foldl Lister.step .empty) →
      let c' := (c.terminatingPods s target).1
      ∃ selected found : List Pod,
        selected.Nodup ∧
        (∀ p, p ∈ selected ↔ p ∈ (es.foldl Lister.step .empty).toList ∧ s.Selects p) ∧
        (c.terminatingPods s target).2 = .ok found ∧ found.Nodup ∧
        (∀ p, p ∈ found ↔ p ∈ selected ∧ p.Terminating) ∧
        c' = { c with
          tracker := c'.tracker
          record := { c.record with
            dependencies := c.record.dependencies ++
              selected.map (fun p => ⟨target, ⟨false, .pod, objectKey p⟩⟩) } } ∧
        (∀ d, d ∈ c'.tracker.dependencies ↔ d ∈ c.tracker.dependencies ∨
          ∃ p ∈ selected, d = ⟨target, ⟨false, .pod, objectKey p⟩⟩) ∧
        ∀ p ∈ selected, ∀ xs : List Activity, .clear target ∉ xs →
          ∀ later : Pod, objectKey later = objectKey p →
            target ∈ (c'.performAll xs).tracker.targetsFor .pod (objectKey later) := by
  refine ⟨fun hnone => ?_, fun es hl => ?_⟩
  · unfold terminatingPods Service.selectedPods
    rw [hnone]
  · intro c'
    let l : Lister Pod := es.foldl Lister.step .empty
    have htidy : l.Tidy := Lister.tidy_foldl (Lister.keeps_empty _) es
    let selected := l.select s.metadata.nsOrEmpty s.selector
    have hselected : selected.Nodup := (Lister.nodup_toList htidy).filter _
    have hanswer := terminatingPods_of_pods hl s target
    have hc' : c' = _ := congrArg Prod.fst hanswer
    rw [foldl_track] at hc'
    have htracker : ∀ d, d ∈ c'.tracker.dependencies ↔ d ∈ c.tracker.dependencies ∨
        ∃ p ∈ selected, d = ⟨target, ⟨false, .pod, objectKey p⟩⟩ := by
      intro d
      rw [hc']
      show d ∈ (List.foldl Tracker.track _ _).dependencies ↔ _
      rw [Tracker.mem_dependencies_foldl_track, List.mem_map]
      simp only [eq_comm]
      rfl
    refine ⟨selected, selected.filter Pod.isTerminating, hselected,
      fun p => Service.mem_select_iff, congrArg Prod.snd hanswer, hselected.filter _, fun p => ?_,
      ?_, htracker, fun p hp xs hxs later hlater => ?_⟩
    · rw [List.mem_filter, Pod.isTerminating_iff]
    · rw [hc']
    · refine mem_targetsFor_performAll_of_mem ?_ hxs
      rw [hlater, Tracker.mem_targetsFor]
      exact ⟨false, (htracker _).2 (.inr ⟨p, hp, rfl⟩)⟩

def podOf (name app : String) (deleting : Bool) : Pod where
  metadata := ⟨some "default", some name, none, none, some (Dict.empty.insert "app" app), none,
    deleting⟩
  status := some ⟨none, some "10.0.0.1"⟩

def webService : Service where
  metadata := .ofKey ⟨"default", "web"⟩
  spec := some ⟨some (Dict.empty.insert "app" "web")⟩

/-- Two pods of the service, one of which is being deleted, and a pod of another one. -/
def webEvents : List (WatchEvent Pod) :=
  [.apply (podOf "web-1" "web" true), .apply (podOf "web-2" "web" false),
    .apply (podOf "db-1" "db" true)]

def withPods (pods : Option (Lister Pod)) : Controller :=
  { start .default Settings.default.acmeKeys (.files .empty) with
    listers := { Listers.empty true with pods := pods } }

theorem terminatingPods_exact_of_web :
    ((withPods none).terminatingPods webService .global).2.isOk = false ∧
    ∃ found, ((withPods (some (webEvents.foldl Lister.step .empty))).terminatingPods webService
        .global).2 = .ok found ∧
      podOf "web-1" "web" true ∈ found ∧ podOf "web-2" "web" false ∉ found ∧
      podOf "db-1" "db" true ∉ found ∧
      .global ∈ ((withPods (some (webEvents.foldl Lister.step .empty))).terminatingPods webService
        .global).1.tracker.targetsFor .pod (objectKey (podOf "web-2" "web" false)) := by
  have hnone := (terminatingPods_exact (withPods none) webService .global).1 rfl
  obtain ⟨selected, found, -, hselected, hanswer, -, hfound, -, -, hlater⟩ :=
    (terminatingPods_exact (withPods (some (webEvents.foldl Lister.step .empty))) webService
      .global).2 webEvents rfl
  have hselect : ∀ p, p ∈ selected ↔ p ∈ (webEvents.foldl Lister.step .empty).select
      webService.metadata.nsOrEmpty webService.selector :=
    fun p => (hselected p).trans Service.mem_select_iff.symm
  refine ⟨congrArg (Except.isOk ·.2) hnone, found, hanswer, ?_, fun hmem => ?_, fun hmem => ?_, ?_⟩
  · exact (hfound _).2 ⟨(hselect _).2 (by decide), (Pod.isTerminating_iff _).1 (by decide)⟩
  · exact absurd ((Pod.isTerminating_iff _).2 ((hfound _).1 hmem).2) (by decide)
  · exact absurd ((hselect _).1 ((hfound _).1 hmem).1) (by decide)
  · exact hlater _ ((hselect _).2 (by decide)) [] List.not_mem_nil _ rfl

/-- A service without a selector is given the pods of its whole namespace: all of them are recorded,
and those that are about to go away are the answer. So it is given none, and nothing is recorded,
exactly if the lister has no pod of that namespace. -/
theorem spared_iff_no_neighbours {c : Controller} {l : Lister Pod} (hl : c.listers.pods = some l)
    {s : Service} (hs : s.Unselective) (target : Target) :
    (c.terminatingPods s target).2 = .ok ((s.neighbours l).filter Pod.isTerminating) ∧
      (c.terminatingPods s target).1.record.dependencies = c.record.dependencies ++
        (s.neighbours l).map (fun p => ⟨target, ⟨false, .pod, objectKey p⟩⟩) ∧
      (c.terminatingPods s target = (c, .ok []) ↔
        ∀ p ∈ l.toList, p.metadata.ns ≠ some s.metadata.nsOrEmpty) := by
  have hanswer := terminatingPods_of_pods hl s target
  simp only [hs.select_eq] at hanswer
  have hrecord : (c.terminatingPods s target).1.record.dependencies = c.record.dependencies ++
      (s.neighbours l).map (fun p => ⟨target, ⟨false, .pod, objectKey p⟩⟩) := by
    rw [hanswer, foldl_track]
  refine ⟨congrArg Prod.snd hanswer, hrecord, ?_⟩
  rw [← Service.neighbours_eq_nil_iff]
  constructor
  · intro hspared
    rw [hspared] at hrecord
    exact List.map_eq_nil_iff.1 (List.self_eq_append_right.1 hrecord)
  · intro hnil
    rw [hanswer, hnil]
    rfl

/-- The endpoints of the service are kept by hand. -/
def manualService (ns : String) : Service where
  metadata := .ofKey ⟨ns, "manual"⟩
  spec := some ⟨none⟩

theorem spared_iff_no_neighbours_of_manual :
    let c := withPods (some (webEvents.foldl Lister.step .empty))
    c.terminatingPods (manualService "other") .global = (c, .ok []) ∧
      (c.terminatingPods (manualService "default") .global).1.record.dependencies.length = 3 := by
  intro c
  have hs : ∀ ns, (manualService ns).Unselective := fun ns => .inr ⟨_, rfl, .inl rfl⟩
  obtain ⟨-, -, hother⟩ := spared_iff_no_neighbours (c := c) rfl (hs "other") .global
  obtain ⟨-, hrecord, -⟩ := spared_iff_no_neighbours (c := c) rfl (hs "default") .global
  refine ⟨hother.2 (by decide), ?_⟩
  rw [hrecord]
  decide

/-- A pod of another service is taken for one of a service that has no selector. -/
theorem terminatingPods_of_manual_ne_nil :
    let c := withPods (some (webEvents.foldl Lister.step .empty))
    (manualService "default").Unselective ∧
      ∃ found, (c.terminatingPods (manualService "default") .global).2 = .ok found ∧
        podOf "db-1" "db" true ∈ found ∧
        (c.terminatingPods (manualService "default") .global).1.record.dependencies ≠
          c.record.dependencies := by
  intro c
  have hs : (manualService "default").Unselective := .inr ⟨_, rfl, .inl rfl⟩
  have hanswer := terminatingPods_of_pods (c := c) rfl (manualService "default") .global
  refine ⟨hs, _, congrArg Prod.snd hanswer, by decide, ?_⟩
  rw [hanswer, foldl_track]
  decide

end Controller

end IngressCache
