import IngressCache.Proofs.Session.Schedule

/-!
# Events that are lost

The store of material may fail to return from any call, whatever it did before. The event is then
lost as a whole, and nothing else is: the session goes on as if the event had never arrived, but
for a lock that is poisoned.
-/

namespace IngressCache

/-- The aggregator with a lock that is not poisoned. -/
def Aggregator.healed (a : Aggregator) : Aggregator :=
  { a with poisoned := false }

theorem Aggregator.healed_receive (a : Aggregator) (e : Event) :
    ((a.receive e).getD a).healed = (a.healed.receive e).getD a.healed := by
  have hnotify : a.healed.pending.notify a.healed.tracked e = a.pending.notify a.tracked e := rfl
  unfold receive
  rw [hnotify]
  cases a.pending.notify a.tracked e <;> rfl

namespace TimedCall

def kept (xs : List TimedCall) : List TimedCall :=
  xs.filter fun x => !x.isLost

theorem isLost_of_mem_kept {xs : List TimedCall} {x : TimedCall} (h : x ∈ kept xs) :
    x.isLost = false := by
  simpa using (List.mem_filter.1 h).2

end TimedCall

namespace Session

open TimedCall

/-! ### Sessions that differ in a poisoned lock -/

/-- The sessions have no watches, and they are the same as far as events, publishes and time go. -/
structure Agrees (s s' : Session) : Prop where
  left : s.watches = none
  right : s'.watches = none
  aggregator : s.controller.aggregator.healed = s'.controller.aggregator.healed
  metrics : s.controller.metrics = s'.controller.metrics

namespace Agrees

variable {s s' : Session}

theorem refl (h : s.watches = none) : s.Agrees s :=
  ⟨h, h, rfl, rfl⟩

theorem signals (h : s.Agrees s') : s.signals = s'.signals :=
  (congrArg Aggregator.signals h.aggregator :)

theorem pending (h : s.Agrees s') :
    s.controller.aggregator.pending = s'.controller.aggregator.pending :=
  (congrArg Aggregator.pending h.aggregator :)

theorem tracked (h : s.Agrees s') :
    s.controller.aggregator.tracked = s'.controller.aggregator.tracked :=
  (congrArg Aggregator.tracked h.aggregator :)

theorem moveTo (h : s.Agrees s') (time : Nat) : (s.moveTo time).Agrees (s'.moveTo time) := by
  rw [moveTo_of_unwatched h.left, moveTo_of_unwatched h.right, h.signals]
  exact ⟨h.left, h.right,
    congrArg (fun a => { a with signals := s'.signals.moveTo time }) h.aggregator, h.metrics⟩

theorem next?_eq (h : s.Agrees s') : s.next? = s'.next? := by
  have hsignals : s.controller.aggregator.signals = s'.controller.aggregator.signals := h.signals
  rw [next?, next?, hsignals, h.left, h.right]

theorem runUntil (h : s.Agrees s') (time fuel : Nat) :
    (runUntil time fuel s).Agrees (runUntil time fuel s') := by
  induction fuel generalizing s s' with
  | zero => exact h.moveTo time
  | succ fuel ih =>
    rw [Session.runUntil, Session.runUntil, h.next?_eq]
    split
    · split
      · exact ih (h.moveTo _)
      · exact h.moveTo time
    · exact h.moveTo time

theorem advance (h : s.Agrees s') (millis : Nat) : (s.advance millis).Agrees (s'.advance millis) := by
  have hsignals : s.controller.aggregator.signals = s'.controller.aggregator.signals := h.signals
  rw [Session.advance, Session.advance, now, now, wakeUps, wakeUps, hsignals]
  exact h.runUntil _ _

/-- A call that is not lost gets the same answer, and it does the same. -/
theorem answer (h : s.Agrees s') {x : TimedCall} (hx : x.isLost = false) :
    (x.answer s).2 = (x.answer s').2 ∧ (x.answer s).1.Agrees (x.answer s').1 := by
  cases x with
  | notify store e =>
    let c : Controller := { s.controller with store := store }
    let c' : Controller := { s'.controller with store := store }
    obtain ⟨hreturns, hagg, hmetrics⟩ := Controller.notify_of_not_loses (c := c) hx
    obtain ⟨hreturns', hagg', hmetrics'⟩ := Controller.notify_of_not_loses (c := c') hx
    have hanswer : ∀ c : Controller, (c.notify e).2 = true →
        (if (c.notify e).2 then Session.Answer.done else .broken) = .done := by
      intro c hc
      rw [if_pos hc]
    refine ⟨(hanswer c hreturns).trans (hanswer c' hreturns').symm, h.left, h.right, ?_, ?_⟩
    · show (c.notify e).1.aggregator.healed = (c'.notify e).1.aggregator.healed
      rw [hagg, hagg', Aggregator.healed_receive, Aggregator.healed_receive]
      show (s.controller.aggregator.healed.receive e).getD s.controller.aggregator.healed = _
      rw [h.aggregator]
    · show (c.notify e).1.metrics = (c'.notify e).1.metrics
      rw [hmetrics, hmetrics']
      show s.controller.metrics.countEvents
        ([e].filter s.controller.aggregator.tracked.accepts) = _
      rw [h.metrics, h.tracked]
  | publish =>
    have hsnapshot : s.controller.publish.2 = s'.controller.publish.2 :=
      congrArg Pending.snapshot h.pending
    refine ⟨congrArg Answer.snapshot hsnapshot, h.left, h.right, ?_, ?_⟩
    · exact congrArg (fun a => a.publish.2) h.aggregator
    · show s.controller.metrics.recordPublish s.controller.publish.2.objects.length
        s.controller.publish.2.fullSync = _
      rw [h.metrics, hsnapshot]
      rfl
  | needFullSync =>
    exact ⟨congrArg (fun p : Pending => Answer.flag p.needFullSync) h.pending,
      h.left, h.right, h.aggregator, h.metrics⟩
  | metrics => exact ⟨congrArg Answer.metrics h.metrics, h⟩
  | pass millis =>
    have hadvance := h.advance millis
    exact ⟨congrArg (fun s : Signals => Answer.signals s.sent.length) hadvance.signals, hadvance⟩

/-- A call that is lost does nothing. -/
theorem answer_of_isLost (h : s.Agrees s') {x : TimedCall} (hx : x.isLost = true) :
    (x.answer s).1.Agrees s' := by
  cases x with
  | notify store e =>
    let c : Controller := { s.controller with store := store }
    obtain ⟨-, hagg, hmetrics⟩ := Controller.notify_of_loses (c := c) hx
    exact ⟨h.left, h.right, (congrArg Aggregator.healed hagg).trans h.aggregator,
      hmetrics.trans h.metrics⟩
  | _ => cases hx

end Agrees

/-! ### Runs -/

/-- The answer to a call tells whether it was lost, whatever happened before. -/
theorem answer_eq_broken_iff (s : Session) (x : TimedCall) :
    (x.answer s).2 = .broken ↔ x.isLost = true := by
  cases x with
  | notify store e =>
    let c : Controller := { s.controller with store := store }
    show (if (c.notify e).2 then Answer.done else .broken) = .broken ↔ store.loses e = true
    cases hloses : store.loses e with
    | true =>
      rw [(Controller.notify_of_loses (c := c) hloses).1]
      simp
    | false =>
      rw [(Controller.notify_of_not_loses (c := c) hloses).1]
      simp
  | _ => exact ⟨fun h => (nomatch h), fun h => (nomatch h)⟩

/-- The calls, each with its answer. -/
def replies (s : Session) : List TimedCall → List (TimedCall × Answer)
  | [] => []
  | x :: xs => (x, (x.answer s).2) :: replies (x.answer s).1 xs

theorem broken_iff_of_mem_replies {s : Session} {xs : List TimedCall} {r : TimedCall × Answer}
    (h : r ∈ s.replies xs) : r.2 = .broken ↔ r.1.isLost = true := by
  induction xs generalizing s with
  | nil => cases h
  | cons x xs ih =>
    rcases List.mem_cons.1 h with rfl | h
    · exact answer_eq_broken_iff s x
    · exact ih h

/-- A run goes like the one without the calls that are lost. -/
theorem Agrees.run {s s' : Session} (h : s.Agrees s') (xs : List TimedCall) :
    (s.replies xs).filter (fun r => !r.1.isLost) = s'.replies (kept xs) ∧
      (s.after xs).Agrees (s'.after (kept xs)) := by
  induction xs generalizing s s' with
  | nil => exact ⟨rfl, h⟩
  | cons x xs ih =>
    cases hx : x.isLost with
    | true =>
      have hkept : kept (x :: xs) = kept xs := List.filter_cons_of_neg (by simp [hx])
      obtain ⟨hreplies, hafter⟩ := ih (h.answer_of_isLost hx)
      rw [hkept, replies, List.filter_cons_of_neg (by simp [hx])]
      exact ⟨hreplies, hafter⟩
    | false =>
      have hkept : kept (x :: xs) = x :: kept xs := List.filter_cons_of_pos (by simp [hx])
      obtain ⟨hanswer, hstep⟩ := h.answer hx
      obtain ⟨hreplies, hafter⟩ := ih hstep
      rw [hkept, replies, List.filter_cons_of_pos (by simp [hx]), hreplies, hanswer]
      exact ⟨rfl, hafter⟩

theorem Tells.of_agrees {t : TrackedKeys} {wait : Nat} {xs : List TimedCall} {s s' : Session}
    (h : s'.Tells t wait xs) (hs : s.Agrees s') : s.Tells t wait xs where
  watches := hs.left
  tracked := hs.tracked.trans h.tracked
  waits := (congrArg Aggregator.wait hs.aggregator).trans h.waits
  pending := hs.pending.trans h.pending
  counted := (congrArg Metrics.events hs.metrics).trans h.counted
  signals := by
    rw [hs.signals]
    exact h.signals

/-- Every call that is not lost gets the answer that it gets in the run without the lost ones, and
no other call is ever denied its answer. Signals, buffers and counters are those of that run as
well, and they all tell of the same events: those that were kept. -/
theorem replies_eq_of_kept (settings : Settings) (acme : Except KeyFault AcmeKeys)
    (store : SecretStore) (cluster : Cluster) (writeThrough : Bool) (xs : List TimedCall) :
    let s := unwatched settings acme store cluster writeThrough
    (s.replies xs).filter (fun r => !r.1.isLost) = s.replies (kept xs) ∧
      (∀ r ∈ s.replies xs, r.2 = .broken ↔ r.1.isLost = true) ∧
      (s.after xs).signals = (s.after (kept xs)).signals ∧
      (s.after xs).controller.aggregator.pending =
        (s.after (kept xs)).controller.aggregator.pending ∧
      (s.after xs).controller.metrics = (s.after (kept xs)).controller.metrics ∧
      (s.after xs).Tells ⟨settings.globalConfigMap, settings.tcpConfigMap⟩
        settings.updates.waitBeforeUpdate.toNat (kept xs) := by
  intro s
  obtain ⟨hreplies, hafter⟩ := (Agrees.refl (s := s) rfl).run xs
  have hkept : (s.after (kept xs)).Tells ⟨settings.globalConfigMap, settings.tcpConfigMap⟩
      settings.updates.waitBeforeUpdate.toNat (kept xs) :=
    (tells_unwatched settings acme store cluster writeThrough).after
      fun _ hx => isLost_of_mem_kept hx
  exact ⟨hreplies, fun _ hr => broken_iff_of_mem_replies hr, hafter.signals, hafter.pending,
    hafter.metrics, hkept.of_agrees hafter⟩

/-- The store does not return from the first secret, but from the same one when it comes again. -/
def secondTry (secret : Secret) : List TimedCall :=
  [.notify (.observer fun _ => true) (.secret ⟨none, some secret⟩), .needFullSync, .pass 30,
    .notify (.observer fun _ => false) (.secret ⟨none, some secret⟩)]

theorem replies_eq_of_kept_of_secondTry :
    let secret : Secret := ⟨.ofKey ⟨"default", "tls"⟩, none, none⟩
    let s := unwatched .default Settings.default.acmeKeys (.observer fun _ => false) ⟨[], []⟩ false
    let s' := s.after (secondTry secret)
    s'.controller.aggregator.pending.secrets = ⟨[], [], [secret]⟩ ∧
      s'.controller.metrics.events = [⟨["secret", "add"], 1⟩] ∧
      s'.signals.sent ++ s'.signals.timers = [230] := by
  intro secret s s'
  obtain ⟨-, -, -, -, -, htells⟩ := replies_eq_of_kept .default Settings.default.acmeKeys
    (.observer fun _ => false) ⟨[], []⟩ false (secondTry secret)
  refine ⟨?_, ?_, ?_⟩
  · rw [htells.pending]
    decide
  · rw [htells.counted]
    decide
  · rw [htells.signals.dues]
    decide

end Session

end IngressCache
