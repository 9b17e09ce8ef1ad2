import IngressCache.Proofs.Controller.Delivery
import IngressCache.Proofs.Controller.Receipt
import Mathlib.Data.List.Forall2

/-!
# Watches that run beside each other

Each kind of objects has a watch of its own, and how the events of different watches interleave is
left to chance. A window of events is read kind by kind, so only the order within each kind shows:
runs whose windows differ in the interleaving alone publish the same snapshots and count the same.
-/

namespace IngressCache

/-- The events of each kind are the same ones in the same order, and so are those of no kind. -/
def Interleaved (v w : List Event) : Prop :=
  ∀ kind : Option Kind, v.filter (·.kind? = kind) = w.filter (·.kind? = kind)

namespace Interleaved

variable {v w v' w' : List Event}

theorem append (h : Interleaved v w) (h' : Interleaved v' w') :
    Interleaved (v ++ v') (w ++ w') := by
  intro kind
  rw [List.filter_append, List.filter_append, h kind, h' kind]

theorem flatten {vs ws : List (List Event)} (h : List.Forall₂ Interleaved vs ws) :
    Interleaved vs.flatten ws.flatten := by
  induction h with
  | nil => exact fun _ => rfl
  | cons hhead _ ih => exact hhead.append ih

theorem perm (h : Interleaved v w) : v.Perm w := by
  rw [List.perm_iff_count]
  intro e
  have hcount := congrArg (List.count e) (h e.kind?)
  rwa [List.count_filter (by simp), List.count_filter (by simp)] at hcount

/-- A reading of the events of one kind. -/
theorem filterMap_eq (h : Interleaved v w) (kind : Option Kind) {β : Type} {f : Event → Option β}
    (hf : ∀ e, e.kind? ≠ kind → f e = none) : v.filterMap f = w.filterMap f := by
  have hread : ∀ l : List Event, (l.filter (·.kind? = kind)).filterMap f = l.filterMap f := by
    intro l
    rw [List.filterMap_filter]
    congr 1
    funext e
    by_cases he : e.kind? = kind
    · simp [he]
    · simp [he, hf e he]
  rw [← hread v, ← hread w, h kind]

theorem any_eq (h : Interleaved v w) (p : Event → Bool) : v.any p = w.any p := by
  rw [Bool.eq_iff_iff, List.any_eq_true, List.any_eq_true]
  simp only [h.perm.mem_iff]

end Interleaved

/-! ### Buffers -/

theorem Event.change?_of_kind?_ne {e : Event} {k : Kind} (h : e.kind? ≠ some k) :
    e.change? k = none := by
  cases e <;> cases k <;> first | rfl | exact absurd rfl h

namespace Interleaved

variable {v w v' w' : List Event}

theorem changes_eq (h : Interleaved v w) (k : Kind) {β : Type} (f : Change k.Object → Option β) :
    v.filterMap (fun e => (e.change? k).bind f) = w.filterMap fun e => (e.change? k).bind f :=
  h.filterMap_eq (some k) fun e he => by rw [Event.change?_of_kind?_ne he, Option.bind_none]

theorem deltaOf_eq (h : Interleaved v w) (k : Kind) : deltaOf k v = deltaOf k w := by
  simp only [deltaOf, deletions, updates, additions, h.changes_eq]

theorem lastContent_eq (h : Interleaved v w) {brings : Event → Option Texts}
    (hbrings : ∀ e, e.kind? ≠ some .configMap → brings e = none) :
    lastContent brings v = lastContent brings w :=
  congrArg List.getLast? (h.filterMap_eq _ hbrings)

/-- What the buffers hold is read kind by kind. -/
theorem ofEvents_eq (t : TrackedKeys) (h : Interleaved v w) (h' : Interleaved v' w') :
    Pending.ofEvents t v v' = Pending.ofEvents t w w' := by
  have hglobal : ∀ e : Event, e.kind? ≠ some .configMap → t.globalContent? e = none := by
    intro e he
    rw [TrackedKeys.globalContent?, Event.change?_of_kind?_ne he]
    rfl
  have htcp : ∀ e : Event, e.kind? ≠ some .configMap → t.tcpContent? e = none := by
    intro e he
    rw [TrackedKeys.tcpContent?, Event.change?_of_kind?_ne he]
    rfl
  simp only [Pending.ofEvents, currents, h.lastContent_eq hglobal, h'.lastContent_eq hglobal,
    h.lastContent_eq htcp, h'.lastContent_eq htcp, h'.deltaOf_eq, h'.changes_eq, h'.any_eq]

theorem ofWindows_eq (t : TrackedKeys) {vs ws : List (List Event)} (h : Interleaved v w)
    (hs : List.Forall₂ Interleaved vs ws) :
    Snapshot.ofWindows t v vs = Snapshot.ofWindows t w ws := by
  induction hs generalizing v w with
  | nil => rfl
  | cons hhead _ ih =>
    rw [Snapshot.ofWindows, Snapshot.ofWindows, h.ofEvents_eq t hhead, ih (h.append hhead)]

end Interleaved

theorem Call.mem_filterMap_event? {calls : List Call} {e : Event} :
    e ∈ calls.filterMap event? ↔ .notify e ∈ calls := by
  rw [List.mem_filterMap]
  constructor
  · rintro ⟨call | _, hcall, he⟩
    · obtain rfl := Option.some.inj he
      exact hcall
    · cases he
  · exact fun h => ⟨_, h, rfl⟩

/-! ### Counters -/

namespace Metrics

/-- The counters when some more snapshots were published. -/
def countPublishes (m : Metrics) (ss : List Snapshot) : Metrics :=
  ss.foldl (fun m s => m.recordPublish s.objects.length s.fullSync) m

theorem countPublishes_countEvents (m : Metrics) (es : List Event) (ss : List Snapshot) :
    (m.countEvents es).countPublishes ss = (m.countPublishes ss).countEvents es := by
  induction ss generalizing m with
  | nil => rfl
  | cons s ss ih => exact ih (m.recordPublish s.objects.length s.fullSync)

theorem events_countPublishes (m : Metrics) (ss : List Snapshot) :
    (m.countPublishes ss).events = m.events := by
  induction ss generalizing m with
  | nil => rfl
  | cons s ss ih => exact ih (m.recordPublish s.objects.length s.fullSync)

end Metrics

namespace Controller

/-- The counters after calls that lose no event: every event of interest was counted, and every
snapshot as it was published. -/
theorem metrics_serve {c : Controller} {calls : List Call}
    (h : ∀ e, .notify e ∈ calls → c.store.loses e = false) :
    (c.serve calls).2.metrics =
      (c.metrics.countPublishes (c.serve calls).1).countEvents
        ((calls.filterMap Call.event?).filter c.aggregator.tracked.accepts) := by
  induction calls generalizing c with
  | nil => rfl
  | cons call calls ih =>
    cases call with
    | notify e =>
      have he := h e List.mem_cons_self
      obtain ⟨-, hagg, hmetrics⟩ := notify_of_not_loses he
      have hstore : (c.notify e).1.store.answers = c.store.answers :=
        (notify_of_answers ((SecretStore.loses_eq_false_iff _ e).1 he)).2.2.1
      have hrest : ∀ e', .notify e' ∈ calls → (c.notify e).1.store.loses e' = false := by
        intro e' he'
        rw [SecretStore.loses, hstore]
        exact h e' (List.mem_cons_of_mem _ he')
      have htracked : (c.notify e).1.aggregator.tracked = c.aggregator.tracked := by
        rw [hagg]
        exact Aggregator.tracked_receive _ e
      have hevents : (((Call.notify e) :: calls).filterMap Call.event?).filter
            c.aggregator.tracked.accepts =
          [e].filter c.aggregator.tracked.accepts ++
            (calls.filterMap Call.event?).filter c.aggregator.tracked.accepts := by
        rw [List.filterMap_cons_some (f := Call.event?) rfl, ← List.singleton_append,
          List.filter_append]
      rw [serve, ih hrest, htracked, hevents, Metrics.countEvents_append, hmetrics,
        Metrics.countPublishes_countEvents]
    | publish =>
      have hrest : ∀ e, .notify e ∈ calls → c.publish.1.store.loses e = false :=
        fun e he => h e (List.mem_cons_of_mem _ he)
      rw [serve, ih hrest]
      rfl

/-- Two runs that publish at the same points and whose windows hold the same events of each kind in
the same order: every snapshot is the same in both, and so are what stays buffered and the counters,
however the kinds were interleaved. -/
theorem snapshots_eq_of_interleaved (settings : Settings) (acme : Except KeyFault AcmeKeys)
    (store : SecretStore) {calls calls' : List Call}
    (hwindows : List.Forall₂ Interleaved (Call.windows calls) (Call.windows calls'))
    (hopen : Interleaved (Call.openWindow calls) (Call.openWindow calls'))
    (hstore : ∀ e, .notify e ∈ calls → store.loses e = false) :
    let run := (start settings acme store).serve calls
    let run' := (start settings acme store).serve calls'
    run.1 = run'.1 ∧ run.2.aggregator.pending = run'.2.aggregator.pending ∧
      (∀ values, run.2.metrics.events.count values = run'.2.metrics.events.count values) ∧
      { run.2.metrics with events := run'.2.metrics.events } = run'.2.metrics := by
  intro run run'
  let t : TrackedKeys := ⟨settings.globalConfigMap, settings.tcpConfigMap⟩
  have hflatten : Interleaved (Call.windows calls).flatten (Call.windows calls').flatten :=
    Interleaved.flatten hwindows
  have hperm : (calls.filterMap Call.event?).Perm (calls'.filterMap Call.event?) := by
    have h := (hflatten.append hopen).perm
    rwa [Call.windows, Call.openWindow, Call.flatten_windowsFrom, Call.windows, Call.openWindow,
      Call.flatten_windowsFrom] at h
  -- The other run has the same events, so it loses none either.
  have hstore' : ∀ e, .notify e ∈ calls' → store.loses e = false := by
    intro e he
    have hmem : e ∈ calls.filterMap Call.event? :=
      hperm.mem_iff.2 (Call.mem_filterMap_event?.2 he)
    exact hstore e (Call.mem_filterMap_event?.1 hmem)
  obtain ⟨hrun, hend⟩ : run.1 = Snapshot.ofWindows t [] (Call.windows calls) ∧
      run.2.aggregator.pending =
        .ofEvents t (Call.windows calls).flatten (Call.openWindow calls) :=
    serve_eq rfl (Pending.ofEvents_nil t).symm fun e he =>
      (SecretStore.loses_eq_false_iff store e).1 (hstore e he)
  obtain ⟨hrun', hend'⟩ : run'.1 = Snapshot.ofWindows t [] (Call.windows calls') ∧
      run'.2.aggregator.pending =
        .ofEvents t (Call.windows calls').flatten (Call.openWindow calls') :=
    serve_eq rfl (Pending.ofEvents_nil t).symm fun e he =>
      (SecretStore.loses_eq_false_iff store e).1 (hstore' e he)
  have hsnapshots : run.1 = run'.1 := by
    rw [hrun, hrun']
    exact Interleaved.ofWindows_eq t (fun _ => rfl) hwindows
  have hmetrics : run.2.metrics = _ := metrics_serve hstore
  have hmetrics' : run'.2.metrics = _ := metrics_serve hstore'
  refine ⟨hsnapshots, ?_, fun values => ?_, ?_⟩
  · rw [hend, hend']
    exact hflatten.ofEvents_eq t hopen
  · rw [hmetrics, hmetrics']
    simp only [Metrics.countEvents, Metrics.events_countPublishes, Counter.count_countEvents]
    rw [(hperm.filter _).countP_eq]
  · rw [hmetrics, hmetrics', hsnapshots]
    rfl

/-- The watch of the ingresses and that of the secrets take turns, in one way or another, and a new
list comes in between. -/
theorem snapshots_eq_of_interleaved_watches :
    let i : Ingress := ⟨.ofKey ⟨"default", "web"⟩, none⟩
    let s : Secret := ⟨.ofKey ⟨"default", "tls"⟩, none, none⟩
    let calls : List Call :=
      [.notify (.ingress ⟨none, some i⟩), .notify (.ingress ⟨some i, some i⟩),
        .notify (.secret ⟨none, some s⟩), .notify .resync, .publish,
        .notify (.secret ⟨some s, none⟩), .notify (.ingress ⟨some i, none⟩)]
    let calls' : List Call :=
      [.notify .resync, .notify (.ingress ⟨none, some i⟩), .notify (.secret ⟨none, some s⟩),
        .notify (.ingress ⟨some i, some i⟩), .publish,
        .notify (.ingress ⟨some i, none⟩), .notify (.secret ⟨some s, none⟩)]
    let c := start .default Settings.default.acmeKeys (.observer fun _ => false)
    calls ≠ calls' ∧ (c.serve calls).1 = (c.serve calls').1 ∧
      (c.serve calls).2.aggregator.pending = (c.serve calls').2.aggregator.pending := by
  intro i s calls calls' c
  have hwindows : List.Forall₂ Interleaved (Call.windows calls) (Call.windows calls') := by
    refine .cons (fun kind => ?_) .nil
    rcases kind with _ | _ | _ | _ | _ | _ | _ <;> rfl
  have hopen : Interleaved (Call.openWindow calls) (Call.openWindow calls') := by
    intro kind
    rcases kind with _ | _ | _ | _ | _ | _ | _ <;> rfl
  obtain ⟨hsnapshots, hpending, -, -⟩ := snapshots_eq_of_interleaved .default
    Settings.default.acmeKeys (.observer fun _ => false) hwindows hopen fun e _ => by
      cases hcall : e.storeCall <;> simp [SecretStore.loses, SecretStore.answers, hcall]
  refine ⟨fun h => ?_, hsnapshots, hpending⟩
  cases List.head_eq_of_cons_eq h

end Controller

end IngressCache
