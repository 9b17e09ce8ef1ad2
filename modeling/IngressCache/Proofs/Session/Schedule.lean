import IngressCache.Proofs.Change.Timers
import IngressCache.Proofs.Controller.Delivery
import IngressCache.Proofs.Controller.Receipt
import IngressCache.Session.Run
import Mathlib.Data.List.Induction

/-!
# The schedule of signals

Events arrive and publishes are made at any time. The first event of interest of a window starts a
timer, and nothing else starts, moves or stops one, so timers of windows that were closed early run
on beside that of the open one. The signals that are sent can be told from the times of the calls.
-/

namespace IngressCache

/-! ### The passing of time -/

namespace Session

def signals (s : Session) : Signals :=
  s.controller.aggregator.signals

def withSignals (s : Session) (signals : Signals) : Session :=
  { s with controller := { s.controller with
      aggregator := { s.controller.aggregator with signals := signals } } }

theorem settle_of_unwatched {s : Session} (h : s.watches = none) : s.settle = s := by
  have hpoll : ∀ k, s.poll k = s := by
    intro k
    rw [poll, h]
    rfl
  have hfold : ∀ ks : List Kind, ks.foldl poll s = s := by
    intro ks
    induction ks with
    | nil => rfl
    | cons k ks ih => rw [List.foldl_cons, hpoll, ih]
  exact hfold Kind.all

theorem moveTo_of_unwatched {s : Session} (h : s.watches = none) (time : Nat) :
    s.moveTo time = s.withSignals (s.signals.moveTo time) :=
  settle_of_unwatched (s := s.withSignals (s.signals.moveTo time)) h

/-- Without watches only timers are due while time passes, and the clock stops at each of them. -/
theorem runUntil_of_unwatched {s : Session} (hw : s.watches = none)
    (hs : s.signals.timers.Pairwise (· ≤ ·)) (time fuel : Nat) :
    runUntil time fuel s = s.withSignals (s.signals.moveTo time) := by
  induction fuel generalizing s with
  | zero => exact moveTo_of_unwatched hw time
  | succ fuel ih =>
    unfold runUntil
    split
    · rename_i t _
      split
      · rename_i ht
        -- The timers are in order, so what is sent on the way comes first in any case.
        rw [moveTo_of_unwatched hw t]
        refine (ih (s := s.withSignals (s.signals.moveTo t)) hw (hs.filter _)).trans ?_
        show s.withSignals ((s.signals.moveTo t).moveTo time) = _
        rw [Signals.moveTo_moveTo hs ht]
      · exact moveTo_of_unwatched hw time
    · exact moveTo_of_unwatched hw time

theorem advance_of_unwatched {s : Session} (hw : s.watches = none)
    (hs : s.signals.timers.Pairwise (· ≤ ·)) (millis : Nat) :
    s.advance millis = s.withSignals (s.signals.moveTo (s.signals.now + millis)) :=
  runUntil_of_unwatched hw hs _ _

end Session

/-! ### Windows that grow call by call -/

namespace Call

theorem windowsFrom_concat_notify (w : List Event) (calls : List Call) (e : Event) :
    windowsFrom w (calls ++ [.notify e]) =
      ((windowsFrom w calls).1, (windowsFrom w calls).2 ++ [e]) := by
  induction calls generalizing w with
  | nil => rfl
  | cons call calls ih =>
    cases call with
    | notify e' => exact ih (w ++ [e'])
    | publish => rw [List.cons_append, windowsFrom, windowsFrom, ih]

theorem windowsFrom_concat_publish (w : List Event) (calls : List Call) :
    windowsFrom w (calls ++ [.publish]) =
      ((windowsFrom w calls).1 ++ [(windowsFrom w calls).2], []) := by
  induction calls generalizing w with
  | nil => rfl
  | cons call calls ih =>
    cases call with
    | notify e => exact ih (w ++ [e])
    | publish => rw [List.cons_append, windowsFrom, windowsFrom, ih, List.cons_append]

end Call

/-! ### Calls at their times -/

/-- What is done with a session that has no watches. -/
inductive TimedCall
  /-- An event arrives when the store is the one that is given. -/
  | notify (store : SecretStore) (e : Event)
  | publish
  | needFullSync
  | metrics
  | pass (millis : Nat)

namespace TimedCall

def answer (s : Session) : TimedCall → Session × Session.Answer
  | .notify store e =>
    Session.answer { s with controller := { s.controller with store := store } } (.notify e)
  | .publish => s.answer .publish
  | .needFullSync => s.answer .needFullSync
  | .metrics => s.answer .metrics
  | .pass millis => s.answer (.advance millis)

def event? : TimedCall → Option Event
  | .notify _ e => some e
  | _ => none

def call? : TimedCall → Option Call
  | .notify _ e => some (.notify e)
  | .publish => some .publish
  | _ => none

def pause? : TimedCall → Option Nat
  | .pass millis => some millis
  | _ => none

/-- The call brings an event that the store does not return from. -/
def isLost : TimedCall → Bool
  | .notify store e => store.loses e
  | _ => false

/-! ### What can be told from the calls -/

section

variable (t : TrackedKeys) (wait : Nat) (xs : List TimedCall) (x : TimedCall)

/-- The time after the calls. -/
def elapsed : Nat :=
  xs.foldl (fun now x => now + x.pause?.getD 0) 0

def windows : List (List Event) :=
  Call.windows (xs.filterMap call?)

def openWindow : List Event :=
  Call.openWindow (xs.filterMap call?)

/-- After the calls `xs`, the call `x` brings the first event of interest since the start or the
last publish. -/
def opens : Bool :=
  x.event?.any t.accepts && !(openWindow xs).any t.accepts

def opensAt (n : Nat) : Bool :=
  xs[n]?.any (opens t (xs.take n))

/-- When signals are due: for every call that opens a window, one when `wait` has passed since. -/
def dues : List Nat :=
  ((List.range xs.length).filter (opensAt t xs)).map fun n => elapsed (xs.take n) + wait

end

variable {t : TrackedKeys} {wait : Nat} {xs : List TimedCall} {x : TimedCall}

theorem elapsed_concat : elapsed (xs ++ [x]) = elapsed xs + x.pause?.getD 0 := by
  rw [elapsed, List.foldl_append]
  rfl

theorem elapsed_le_append (xs ys : List TimedCall) : elapsed xs ≤ elapsed (xs ++ ys) := by
  induction ys using List.reverseRecOn with
  | nil => rw [List.append_nil]
  | append_singleton ys y ih =>
    rw [← List.append_assoc, elapsed_concat]
    exact ih.trans (Nat.le_add_right _ _)

theorem elapsed_take_le {m n : Nat} (h : m ≤ n) : elapsed (xs.take m) ≤ elapsed (xs.take n) := by
  have hsplit : xs.take n = xs.take m ++ (xs.drop m).take (n - m) := by
    rw [← List.take_add, Nat.add_sub_cancel' h]
  rw [hsplit]
  exact elapsed_le_append _ _

theorem windows_concat_notify (xs : List TimedCall) (store : SecretStore) (e : Event) :
    windows (xs ++ [.notify store e]) = windows xs ∧
      openWindow (xs ++ [.notify store e]) = openWindow xs ++ [e] := by
  have hcalls : (xs ++ [TimedCall.notify store e]).filterMap call? =
      xs.filterMap call? ++ [.notify e] := filterMap_concat call? xs _
  simp only [windows, openWindow, Call.windows, Call.openWindow, hcalls,
    Call.windowsFrom_concat_notify, and_self]

theorem windows_concat_publish (xs : List TimedCall) :
    windows (xs ++ [.publish]) = windows xs ++ [openWindow xs] ∧
      openWindow (xs ++ [.publish]) = [] := by
  have hcalls : (xs ++ [TimedCall.publish]).filterMap call? =
      xs.filterMap call? ++ [.publish] := filterMap_concat call? xs _
  simp only [windows, openWindow, Call.windows, Call.openWindow, hcalls,
    Call.windowsFrom_concat_publish, and_self]

theorem windows_concat_of_silent (xs : List TimedCall) (h : x.call? = none) :
    windows (xs ++ [x]) = windows xs ∧ openWindow (xs ++ [x]) = openWindow xs := by
  have hcalls : (xs ++ [x]).filterMap call? = xs.filterMap call? := by
    rw [filterMap_concat, h, Option.toList_none, List.append_nil]
  simp only [windows, openWindow, hcalls, and_self]

theorem openWindow_concat (h : x ≠ .publish) :
    openWindow (xs ++ [x]) = openWindow xs ++ x.event?.toList := by
  cases x with
  | notify store e => exact (windows_concat_notify xs store e).2
  | publish => exact absurd rfl h
  | _ => exact (windows_concat_of_silent xs rfl).2.trans (List.append_nil _).symm

theorem opensAt_append {n : Nat} (h : n < xs.length) (ys : List TimedCall) :
    opensAt t (xs ++ ys) n = opensAt t xs n := by
  rw [opensAt, opensAt, List.getElem?_append_left h, List.take_append_of_le_length h.le]

theorem opensAt_length : opensAt t (xs ++ [x]) xs.length = opens t xs x := by
  rw [opensAt, List.getElem?_concat_length, List.take_left]
  rfl

theorem dues_concat :
    dues t wait (xs ++ [x]) =
      dues t wait xs ++ if opens t xs x then [elapsed xs + wait] else [] := by
  have hinit : (List.range xs.length).filter (opensAt t (xs ++ [x])) =
      (List.range xs.length).filter (opensAt t xs) :=
    List.filter_congr fun n hn => opensAt_append (List.mem_range.1 hn) [x]
  have hlast : [xs.length].filter (opensAt t (xs ++ [x])) =
      if opens t xs x then [xs.length] else [] := by
    rw [List.filter_cons, opensAt_length, List.filter_nil]
  have htimes : ((List.range xs.length).filter (opensAt t xs)).map
        (fun n => elapsed ((xs ++ [x]).take n) + wait) = dues t wait xs := by
    refine List.map_congr_left fun n hn => ?_
    have hlt : n < xs.length := List.mem_range.1 (List.mem_filter.1 hn).1
    rw [List.take_append_of_le_length hlt.le]
  rw [dues, List.length_append, List.length_singleton, List.range_succ, List.filter_append, hinit,
    hlast, List.map_append, htimes]
  cases opens t xs x with
  | false => rfl
  | true =>
    simp only [if_true, List.map_cons, List.map_nil, List.take_left]

theorem mem_dues {n : Nat} (h : opensAt t xs n = true) :
    elapsed (xs.take n) + wait ∈ dues t wait xs := by
  refine List.mem_map.2 ⟨n, List.mem_filter.2 ⟨List.mem_range.2 ?_, h⟩, rfl⟩
  by_contra hge
  rw [opensAt, List.getElem?_eq_none (Nat.le_of_not_lt hge)] at h
  cases h

/-- An event of interest has one before it in its window, or is itself the one, that opened it. -/
theorem exists_opensAt (h : (openWindow xs).any t.accepts = true) :
    ∃ m < xs.length, opensAt t xs m = true ∧ ∀ k, m ≤ k → xs[k]? ≠ some .publish := by
  induction xs using List.reverseRecOn with
  | nil => cases h
  | append_singleton xs x ih =>
    have hlength : xs.length < (xs ++ [x]).length := by simp
    have hpublish : x ≠ .publish := by
      rintro rfl
      rw [(windows_concat_publish xs).2] at h
      cases h
    have hbeyond : ∀ k, xs.length ≤ k → (xs ++ [x])[k]? ≠ some .publish := by
      intro k hk hcall
      rw [List.getElem?_append_right hk] at hcall
      exact hpublish (List.mem_singleton.1 (List.mem_of_getElem? hcall)).symm
    -- Either the window was open before the last call, or that call is the one that opened it.
    by_cases hopen : (openWindow xs).any t.accepts = true
    · obtain ⟨m, hm, hopens, hsame⟩ := ih hopen
      refine ⟨m, hm.trans hlength, (opensAt_append hm [x]).trans hopens, fun k hk hcall => ?_⟩
      rcases Nat.lt_or_ge k xs.length with hlt | hge
      · rw [List.getElem?_append_left hlt] at hcall
        exact hsame k hk hcall
      · exact hbeyond k hge hcall
    · refine ⟨xs.length, hlength, ?_, hbeyond⟩
      rw [opensAt_length, opens, Bool.eq_false_iff.2 hopen, Bool.not_false, Bool.and_true]
      rw [openWindow_concat hpublish, List.any_append, Bool.eq_false_iff.2 hopen,
        Bool.false_or] at h
      cases hevent : x.event? with
      | none =>
        rw [hevent] at h
        cases h
      | some e =>
        rw [hevent] at h
        exact (Bool.or_false _).symm.trans h

theorem exists_opensAt_of_event {n : Nat} {e : Event} (he : xs[n]?.bind event? = some e)
    (hacc : t.accepts e = true) :
    ∃ m ≤ n, opensAt t xs m = true ∧ ∀ k, m ≤ k → k ≤ n → xs[k]? ≠ some .publish := by
  obtain ⟨x, hx, hevent⟩ := Option.bind_eq_some_iff.1 he
  have hpublish : x ≠ .publish := by
    rintro rfl
    cases hevent
  have htake : xs.take (n + 1) = xs.take n ++ [x] := by
    rw [List.take_add_one, hx]
    rfl
  have hopen : (openWindow (xs.take (n + 1))).any t.accepts = true := by
    rw [htake, openWindow_concat hpublish, hevent, Option.toList_some, List.any_append,
      List.any_cons, hacc, Bool.true_or, Bool.or_true]
  obtain ⟨m, hm, hopens, hsame⟩ := exists_opensAt hopen
  have hlt : m < n + 1 := by
    rw [List.length_take] at hm
    omega
  refine ⟨m, Nat.le_of_lt_succ hlt, ?_, fun k hmk hkn => ?_⟩
  · rw [← List.take_append_drop (n + 1) xs, opensAt_append hm]
    exact hopens
  · rw [← List.getElem?_take_of_lt (Nat.lt_succ_of_le hkn)]
    exact hsame k hmk

end TimedCall

/-! ### Runs -/

namespace Session

/-- A session without watches, as it starts. -/
def unwatched (settings : Settings) (acme : Except KeyFault AcmeKeys) (store : SecretStore)
    (cluster : Cluster) (writeThrough : Bool) : Session :=
  ⟨.start settings acme store, cluster, writeThrough, none⟩

def after (s : Session) (xs : List TimedCall) : Session :=
  xs.foldl (fun s x => (x.answer s).1) s

theorem after_concat (s : Session) (xs : List TimedCall) (x : TimedCall) :
    s.after (xs ++ [x]) = (x.answer (s.after xs)).1 := by
  rw [after, List.foldl_append]
  rfl

open TimedCall

/-- The session is what the calls `xs`, of which none was lost, tell of it. -/
structure Tells (t : TrackedKeys) (wait : Nat) (xs : List TimedCall) (s : Session) : Prop where
  watches : s.watches = none
  tracked : s.controller.aggregator.tracked = t
  waits : s.controller.aggregator.wait = wait
  pending : s.controller.aggregator.pending =
    .ofEvents t (windows xs).flatten (openWindow xs)
  counted : s.controller.metrics.events =
    Counter.countEvents [] ((xs.filterMap event?).filter t.accepts)
  signals : s.signals.Follows wait (elapsed xs) (dues t wait xs)

variable {t : TrackedKeys} {wait : Nat} {xs : List TimedCall} {s : Session}

theorem tells_unwatched (settings : Settings) (acme : Except KeyFault AcmeKeys)
    (store : SecretStore) (cluster : Cluster) (writeThrough : Bool) :
    (unwatched settings acme store cluster writeThrough).Tells
      ⟨settings.globalConfigMap, settings.tcpConfigMap⟩
      settings.updates.waitBeforeUpdate.toNat [] where
  watches := rfl
  tracked := rfl
  waits := rfl
  pending := (Pending.ofEvents_nil _).symm
  counted := rfl
  signals := .start _

/-- A call other than the passing of time starts a timer if it opens a window, and else it does not
touch the signals. -/
theorem Tells.signals_answer (h : s.Tells t wait xs) {x : TimedCall} (hx : x.isLost = false)
    (hpause : x.pause? = none) :
    (x.answer s).1.signals = if opens t xs x then s.signals.arm wait else s.signals := by
  cases x with
  | notify store e =>
    let c : Controller := { s.controller with store := store }
    obtain ⟨-, hagg, -⟩ := Controller.notify_of_not_loses (c := c) hx
    have hclear : s.controller.aggregator.pending.clear = !(openWindow xs).any t.accepts := by
      rw [h.pending]
      rfl
    show (c.notify e).1.aggregator.signals = _
    rw [hagg]
    show ((s.controller.aggregator.receive e).getD s.controller.aggregator).signals = _
    rw [Aggregator.signals_receive, h.tracked, h.waits, hclear]
    rfl
  | pass millis => cases hpause
  | _ => rfl

theorem Tells.follows_answer (h : s.Tells t wait xs) {x : TimedCall} (hx : x.isLost = false) :
    (x.answer s).1.signals.Follows wait (elapsed (xs ++ [x])) (dues t wait (xs ++ [x])) := by
  rw [elapsed_concat, dues_concat]
  cases hpause : x.pause? with
  | none =>
    rw [h.signals_answer hx hpause]
    split
    · exact h.signals.arm
    · rw [List.append_nil]
      exact h.signals
  | some millis =>
    cases x with
    | pass millis' =>
      obtain rfl := Option.some.inj hpause
      have hopens : opens t xs (.pass millis') = false := rfl
      rw [hopens, if_neg Bool.false_ne_true, List.append_nil]
      show (s.advance millis').signals.Follows _ _ _
      rw [advance_of_unwatched h.watches h.signals.sorted, h.signals.now_eq]
      exact h.signals.moveTo (Nat.le_add_right _ _)
    | _ => cases hpause

theorem answer_of_silent (hw : s.watches = none) (hs : s.signals.timers.Pairwise (· ≤ ·))
    {x : TimedCall} (hx : x.call? = none) :
    (x.answer s).1.watches = none ∧ (x.answer s).1.controller.metrics = s.controller.metrics ∧
      ∃ signals, (x.answer s).1.controller.aggregator =
        { s.controller.aggregator with signals := signals } := by
  cases x with
  | notify store e => cases hx
  | publish => cases hx
  | pass millis =>
    have hanswer : (TimedCall.answer s (.pass millis)).1 = s.withSignals _ :=
      advance_of_unwatched hw hs millis
    rw [hanswer]
    exact ⟨hw, rfl, _, rfl⟩
  | _ => exact ⟨hw, rfl, _, rfl⟩

/-- What a call does is what it tells. -/
theorem Tells.answer (h : s.Tells t wait xs) {x : TimedCall} (hx : x.isLost = false) :
    (x.answer s).1.Tells t wait (xs ++ [x]) := by
  have hsignals := h.follows_answer hx
  have hpending : s.controller.aggregator.pending =
      .ofEvents s.controller.aggregator.tracked (windows xs).flatten (openWindow xs) := by
    rw [h.tracked]
    exact h.pending
  have hevents : ((xs ++ [x]).filterMap event?).filter t.accepts =
      (xs.filterMap event?).filter t.accepts ++ x.event?.toList.filter t.accepts := by
    rw [filterMap_concat, List.filter_append]
  cases hcall : x.call? with
  | none =>
    obtain ⟨hwatches, hmetrics, signals, hagg⟩ :=
      answer_of_silent h.watches h.signals.sorted hcall
    obtain ⟨hwindows, hopen⟩ := windows_concat_of_silent xs hcall
    have hevent : x.event? = none := by
      cases x <;> first | rfl | cases hcall
    refine ⟨hwatches, ?_, ?_, ?_, ?_, hsignals⟩
    · rw [hagg, ← h.tracked]
    · rw [hagg, ← h.waits]
    · rw [hagg, hwindows, hopen]
      exact h.pending
    · rw [hmetrics, h.counted, hevents, hevent, Option.toList_none, List.filter_nil,
        List.append_nil]
  | some call =>
    cases x with
    | notify store e =>
      let c : Controller := { s.controller with store := store }
      obtain ⟨-, hagg, hmetrics⟩ := Controller.notify_of_not_loses (c := c) hx
      obtain ⟨hwindows, hopen⟩ := windows_concat_notify xs store e
      refine ⟨h.watches, ?_, ?_, ?_, ?_, hsignals⟩
      · exact (congrArg Aggregator.tracked hagg).trans
          ((Aggregator.tracked_receive _ e).trans h.tracked)
      · exact (congrArg Aggregator.wait hagg).trans
          ((Aggregator.wait_receive _ e).trans h.waits)
      · rw [hwindows, hopen, ← h.tracked]
        exact (congrArg Aggregator.pending hagg).trans (Aggregator.pending_receive hpending e)
      · have hcount : (TimedCall.answer s (.notify store e)).1.controller.metrics.events =
            s.controller.metrics.events.countEvents
              ([e].filter s.controller.aggregator.tracked.accepts) :=
          congrArg Metrics.events hmetrics
        rw [hcount, h.counted, h.tracked, hevents, Counter.countEvents_append]
        rfl
    | publish =>
      obtain ⟨hwindows, hopen⟩ := windows_concat_publish xs
      have hnone : TimedCall.publish.event? = none := rfl
      refine ⟨h.watches, h.tracked, h.waits, ?_, ?_, hsignals⟩
      · rw [hwindows, hopen, ← h.tracked, List.flatten_append, List.flatten_singleton]
        exact Aggregator.pending_publish hpending
      · rw [hevents, hnone, Option.toList_none, List.filter_nil, List.append_nil]
        exact h.counted
    | _ => cases hcall

theorem Tells.after (h : s.Tells t wait []) {xs : List TimedCall}
    (hxs : ∀ x ∈ xs, x.isLost = false) : (s.after xs).Tells t wait xs := by
  induction xs using List.reverseRecOn with
  | nil => exact h
  | append_singleton xs x ih =>
    rw [List.forall_mem_append, List.forall_mem_singleton] at hxs
    rw [after_concat]
    exact (ih hxs.1).answer hxs.2

/-! ### The schedule -/

/-- After calls of which none is lost, the signals that have been sent are those that were due, one
for each event of interest that was the first since the start or the last publish. Nothing but such
an event and the passing of time touches a signal. And for every event of interest there is a signal
since its window opened, or else one that long after the event at the latest. -/
theorem sent_eq_dues (settings : Settings) (acme : Except KeyFault AcmeKeys) (store : SecretStore)
    (cluster : Cluster) (writeThrough : Bool) {xs : List TimedCall}
    (h : ∀ x ∈ xs, x.isLost = false) :
    let t : TrackedKeys := ⟨settings.globalConfigMap, settings.tcpConfigMap⟩
    let wait := settings.updates.waitBeforeUpdate.toNat
    let signals := fun ys => ((unwatched settings acme store cluster writeThrough).after ys).signals
    let sentAfter := fun rest => (signals (xs ++ [.pass rest])).sent
    (∀ rest, sentAfter rest = (dues t wait xs).filter (· ≤ elapsed xs + rest)) ∧
      (∀ x, x.isLost = false → x.pause? = none → opens t xs x = false →
        signals (xs ++ [x]) = signals xs) ∧
      ∀ n e, xs[n]?.bind event? = some e → t.accepts e = true →
        ∃ m ≤ n, opensAt t xs m = true ∧ (∀ k, m ≤ k → k ≤ n → xs[k]? ≠ some .publish) ∧
          elapsed (xs.take m) ≤ elapsed (xs.take n) ∧
          ∀ rest, elapsed (xs.take m) + wait ≤ elapsed xs + rest →
            elapsed (xs.take m) + wait ∈ sentAfter rest := by
  intro t wait signals sentAfter
  have htells : ((unwatched settings acme store cluster writeThrough).after xs).Tells t wait xs :=
    (tells_unwatched settings acme store cluster writeThrough).after h
  have hsent : ∀ rest, sentAfter rest = (dues t wait xs).filter (· ≤ elapsed xs + rest) := by
    intro rest
    show (((unwatched _ _ _ _ _).after (xs ++ [.pass rest])).signals).sent = _
    rw [after_concat]
    show ((Session.after _ xs).advance rest).signals.sent = _
    rw [advance_of_unwatched htells.watches htells.signals.sorted, htells.signals.now_eq]
    exact htells.signals.sent_moveTo (Nat.le_add_right _ _)
  refine ⟨hsent, fun x hx hpause hopens => ?_, fun n e he hacc => ?_⟩
  · show ((unwatched _ _ _ _ _).after (xs ++ [x])).signals = _
    rw [after_concat, htells.signals_answer hx hpause, hopens, if_neg Bool.false_ne_true]
  · obtain ⟨m, hm, hopens, hwindow⟩ := exists_opensAt_of_event he hacc
    refine ⟨m, hm, hopens, hwindow, elapsed_take_le hm, fun rest hrest => ?_⟩
    rw [hsent, List.mem_filter]
    exact ⟨mem_dues hopens, decide_eq_true hrest⟩

/-- A publish that comes early: the timer of its window runs on beside that of the next one, and a
config map that is of no interest starts none. -/
def earlyPublish (store : SecretStore) (i : Ingress) (m : ConfigMap) : List TimedCall :=
  [.notify store (.ingress ⟨none, some i⟩), .pass 50, .publish,
    .notify store (.configMap ⟨none, some m⟩), .pass 20, .notify store .resync, .pass 80,
    .notify store (.ingress ⟨some i, none⟩)]

theorem sent_eq_dues_of_earlyPublish :
    let store : SecretStore := .observer fun _ => false
    let i : Ingress := ⟨.ofKey ⟨"default", "web"⟩, none⟩
    let m : ConfigMap := ⟨.ofKey ⟨"default", "other"⟩, none⟩
    let xs := earlyPublish store i m
    let signals := fun ys =>
      ((unwatched .default Settings.default.acmeKeys store ⟨[], []⟩ false).after ys).signals
    (signals (xs ++ [.pass 119])).sent = [200] ∧
      (signals (xs ++ [.pass 1000])).sent = [200, 270] := by
  intro store i m xs signals
  have hlost : ∀ x ∈ xs, x.isLost = false := by
    simp [xs, earlyPublish, isLost, SecretStore.loses, SecretStore.answers, store]
  obtain ⟨hsent, -, -⟩ :=
    sent_eq_dues .default Settings.default.acmeKeys store ⟨[], []⟩ false hlost
  exact ⟨(hsent 119).trans (by decide), (hsent 1000).trans (by decide)⟩

end Session

end IngressCache
