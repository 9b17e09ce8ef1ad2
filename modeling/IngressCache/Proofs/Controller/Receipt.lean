import IngressCache.Proofs.Change.Window
import IngressCache.Proofs.Controller.Activity

/-!
# The receipt of an event

An event that arrives is lost if the store of material does not return from its call. Any other one
is counted and buffered if it is of interest, and else it leaves no trace. So the buffers and the
counters tell of the same events.
-/

namespace IngressCache

/-! ### Events that are lost -/

theorem SecretStore.call_of_not_answers (secrets : Lister Secret) {st : SecretStore}
    {call : StoreCall} (h : st.answers call = false) : st.call secrets call = none := by
  cases st with
  | files s => cases h
  | observer breaks =>
    have hb : breaks call = true := by simpa [answers] using h
    simp [SecretStore.call, hb]

/-- The store does not return from the call for the event. -/
def SecretStore.loses (st : SecretStore) (e : Event) : Bool :=
  e.storeCall.any fun call => !st.answers call

theorem SecretStore.loses_eq_false_iff (st : SecretStore) (e : Event) :
    st.loses e = false ↔ ∀ call, e.storeCall = some call → st.answers call = true := by
  unfold loses
  cases e.storeCall <;> simp

/-! ### Events of interest -/

theorem Pending.isSome_buffer (t : TrackedKeys) (p : Pending) (e : Event) :
    (p.buffer t e).isSome = t.accepts e := by
  cases e with
  | configMap c =>
    rcases c with ⟨_ | o, _ | n⟩
    case none.none => rfl
    case some.none =>
      show (if t.tracks (objectKey o) then some p else none).isSome = t.tracks (objectKey o)
      cases t.tracks (objectKey o) <;> rfl
    case none.some | some.some =>
      show _ = t.tracks (objectKey n)
      rw [Bool.eq_iff_iff, TrackedKeys.tracks_iff]
      simp only [buffer, bufferConfigMap, Change.classify]
      by_cases hg : t.global = some (objectKey n)
      · simp [hg]
      · by_cases ht : t.tcp = some (objectKey n) <;> simp [hg, ht]
  | resync => rfl
  | _ c =>
    simp only [buffer]
    split <;> rfl

theorem Aggregator.isSome_receive (a : Aggregator) (e : Event) :
    (a.receive e).isSome = a.tracked.accepts e := by
  rw [← Pending.isSome_buffer _ a.pending]
  unfold receive Pending.notify
  cases a.pending.buffer a.tracked e <;> rfl

theorem Aggregator.wait_receive (a : Aggregator) (e : Event) :
    ((a.receive e).getD a).wait = a.wait := by
  unfold receive
  cases a.pending.notify a.tracked e <;> rfl

/-- The first event of interest since the last publish starts a timer, and no other does. -/
theorem Aggregator.signals_receive (a : Aggregator) (e : Event) :
    ((a.receive e).getD a).signals =
      if a.tracked.accepts e && a.pending.clear then a.signals.arm a.wait else a.signals := by
  have hsome := a.pending.isSome_buffer a.tracked e
  unfold receive Pending.notify
  cases hb : a.pending.buffer a.tracked e with
  | none =>
    rw [hb] at hsome
    rw [← hsome]
    rfl
  | some p =>
    rw [hb] at hsome
    rw [← hsome]
    rfl

/-! ### Counters of events -/

namespace Counter

/-- Values that read the same have one series. -/
theorem count_congr {values other : List String} (h : joined values = joined other)
    (c : Counter) : c.count values = c.count other := by
  induction c with
  | nil => rfl
  | cons s rest ih => simp only [count, h, ih]

/-- The counter when some more events were counted. -/
def countEvents (c : Counter) (es : List Event) : Counter :=
  es.foldl (fun c e => c.record [e.kindLabel, e.action]) c

theorem countEvents_append (c : Counter) (es fs : List Event) :
    c.countEvents (es ++ fs) = (c.countEvents es).countEvents fs :=
  List.foldl_append

theorem count_countEvents (c : Counter) (es : List Event) (values : List String) :
    (c.countEvents es).count values =
      c.count values + es.countP fun e => joined [e.kindLabel, e.action] = joined values := by
  induction es generalizing c with
  | nil => rfl
  | cons e es ih =>
    have hcons : c.countEvents (e :: es) =
        (c.record [e.kindLabel, e.action]).countEvents es := rfl
    rw [hcons, ih]
    by_cases h : joined [e.kindLabel, e.action] = joined values
    · rw [← count_congr h, count_record_self, count_congr h,
        List.countP_cons_of_pos (by simpa using h)]
      omega
    · rw [count_record_ne (Ne.symm h), List.countP_cons_of_neg (by simpa using h)]

end Counter

def Metrics.countEvents (m : Metrics) (es : List Event) : Metrics :=
  { m with events := m.events.countEvents es }

theorem Metrics.countEvents_append (m : Metrics) (es fs : List Event) :
    m.countEvents (es ++ fs) = (m.countEvents es).countEvents fs :=
  congrArg (fun events => { m with events := events }) (m.events.countEvents_append es fs)

/-! ### What an event does -/

namespace Controller

theorem callStore_cases (c : Controller) (call : StoreCall) :
    ∃ c', c.callStore call = (c', c.store.answers call) ∧ c'.aggregator = c.aggregator ∧
      c'.metrics = c.metrics := by
  have hframe : (c.callStore call).1.aggregator = c.aggregator ∧
      (c.callStore call).1.metrics = c.metrics := by
    unfold callStore
    cases c.store.isObserved <;> simp only [if_true, Bool.false_eq_true, if_false] <;> split <;>
      exact ⟨rfl, rfl⟩
  refine ⟨(c.callStore call).1, Prod.ext rfl ?_, hframe⟩
  cases hanswers : c.store.answers call with
  | true =>
    obtain ⟨c', hc, -⟩ := callStore_of_answers hanswers
    rw [hc]
  | false =>
    have hcall := SecretStore.call_of_not_answers c.listers.secrets hanswers
    unfold callStore
    cases c.store.isObserved <;> simp only [if_true, Bool.false_eq_true, if_false, hcall]

/-- An event is received, unless it is lost: then only the lock is poisoned. -/
theorem notify_eq (c : Controller) (e : Event) :
    ∃ c' : Controller, c'.aggregator = c.aggregator ∧ c'.metrics = c.metrics ∧
      c.notify e = if c.store.loses e then
        ({ c' with aggregator := c'.aggregator.poison }, false) else (c'.receive e, true) := by
  unfold notify SecretStore.loses
  cases e.storeCall with
  | none => exact ⟨c.warn (c.aggregator.lockWarnings .write), rfl, rfl, rfl⟩
  | some call =>
    obtain ⟨c', hc, hagg, hmetrics⟩ :=
      (c.warn (c.aggregator.lockWarnings .write)).callStore_cases call
    refine ⟨c', hagg, hmetrics, ?_⟩
    rw [warn_store] at hc
    cases hanswers : c.store.answers call with
    | true =>
      rw [hanswers] at hc
      simp only [hc, Option.any_some, hanswers]
      rfl
    | false =>
      rw [hanswers] at hc
      simp only [hc, Option.any_some, hanswers]
      rfl

theorem metrics_receive (c : Controller) (e : Event) :
    (c.receive e).metrics = c.metrics.countEvents ([e].filter c.aggregator.tracked.accepts) := by
  have hsome := c.aggregator.isSome_receive e
  unfold receive
  cases hr : c.aggregator.receive e with
  | none =>
    rw [hr] at hsome
    rw [List.filter_cons_of_neg (by simp [← hsome])]
    rfl
  | some a =>
    rw [hr] at hsome
    rw [List.filter_cons_of_pos hsome.symm]
    rfl

/-- An event that is not lost is counted and buffered if it is of interest. -/
theorem notify_of_not_loses {c : Controller} {e : Event} (h : c.store.loses e = false) :
    (c.notify e).2 = true ∧
      (c.notify e).1.aggregator = (c.aggregator.receive e).getD c.aggregator ∧
      (c.notify e).1.metrics =
        c.metrics.countEvents ([e].filter c.aggregator.tracked.accepts) := by
  obtain ⟨c', hagg, hmetrics, hc⟩ := c.notify_eq e
  rw [h, if_neg Bool.false_ne_true] at hc
  rw [hc, receive_aggregator, metrics_receive, hagg, hmetrics]
  exact ⟨rfl, rfl, rfl⟩

/-- An event that is lost leaves nothing but the poisoned lock. -/
theorem notify_of_loses {c : Controller} {e : Event} (h : c.store.loses e = true) :
    (c.notify e).2 = false ∧ (c.notify e).1.aggregator = c.aggregator.poison ∧
      (c.notify e).1.metrics = c.metrics := by
  obtain ⟨c', hagg, hmetrics, hc⟩ := c.notify_eq e
  rw [h, if_pos rfl] at hc
  rw [hc, ← hagg, ← hmetrics]
  exact ⟨rfl, rfl, rfl⟩

end Controller

end IngressCache
