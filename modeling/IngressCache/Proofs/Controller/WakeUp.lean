import IngressCache.Proofs.Controller.Delivery
import IngressCache.Proofs.Runs

/-!
# Wake-ups

One consumer waits for a signal and publishes, over and over. Meanwhile events arrive, calls that
have buffered an event start their timer, and timers end, in any order. At most one wake-up is
ever under way, and one is exactly if an event of interest has arrived since the last publish: no
event has to wait for a later one to be noticed, and no publish is made for nothing.
-/

namespace IngressCache

/-! ### Receiving an event in two steps -/

/-- The aggregator when an event is buffered, and whether a timer has yet to be started for it. -/
def Aggregator.buffered? (a : Aggregator) (e : Event) : Option (Aggregator × Bool) :=
  (a.pending.notify a.tracked e).map fun (pending, arms) => ({ a with pending := pending }, arms)

def Aggregator.startTimer (a : Aggregator) : Aggregator :=
  { a with signals := a.signals.arm a.wait }

theorem Aggregator.receive_eq (a : Aggregator) (e : Event) :
    a.receive e =
      (a.buffered? e).map fun (b, arms) => if arms then b.startTimer else b := by
  unfold receive buffered?
  cases a.pending.notify a.tracked e with
  | none => rfl
  | some p =>
    obtain ⟨pending, _ | _⟩ := p <;> rfl

/-- What the buffers hold after an event, as far as the timer is concerned. -/
theorem Aggregator.buffered?_eq (a : Aggregator) (e : Event) :
    a.buffered? e = (a.pending.buffer a.tracked e).map fun p =>
      ({ a with pending := { p with clear := false } }, a.pending.clear) := by
  unfold buffered? Pending.notify
  cases a.pending.buffer a.tracked e <;> rfl

namespace Controller

theorem notify_aggregator (c : Controller) (e : Event) :
    (c.notify e).1.aggregator = c.aggregator.poison ∨
      (c.notify e).1.aggregator = (c.aggregator.receive e).getD c.aggregator := by
  obtain ⟨c', -, hagg, -, hc | hc⟩ := notify_cases c e
  · rw [hc, receive_aggregator, hagg]
    exact .inr rfl
  · rw [hc, ← hagg]
    exact .inl rfl

end Controller

/-! ### Empty buffers -/

/-- Nothing is buffered, and no full synchronisation is asked for. Contents that were handed over
stay known. -/
def Pending.Idle (p : Pending) : Prop :=
  p = { Pending.empty with global := ⟨p.global.cur, none⟩, tcp := ⟨p.tcp.cur, none⟩ }

theorem Pending.idle_ofEvents {t : TrackedKeys} (before : List Event) {w : List Event}
    (h : ∀ e ∈ w, t.accepts e = false) : (ofEvents t before w).Idle := by
  have hnone : w.filter t.accepts = [] :=
    List.filter_eq_nil_iff.2 fun e he => Bool.eq_false_iff.1 (h e he)
  rw [← ofEvents_filter, hnone]
  rfl

/-! ### Timers that end one at a time -/

namespace Signals

/-- A timer ends. It is gone, and its one signal is sent. -/
def expire (s : Signals) (t : Nat) : Signals :=
  { s with now := max s.now t, timers := s.timers.erase t, sent := s.sent ++ [t] }

/-- A signal that nobody waits for leaves the permit. -/
def keep (s : Signals) : Signals :=
  { s with permit := true }

theorem length_timers_expire {s : Signals} {t : Nat} (h : t ∈ s.timers) :
    (s.expire t).timers.length + 1 = s.timers.length := by
  have hpos : 0 < s.timers.length := List.length_pos_of_mem h
  show (s.timers.erase t).length + 1 = s.timers.length
  rw [List.length_erase_of_mem h]
  omega

end Signals

/-! ### The closed loop -/

/-- Where the consumer stands: it has not asked for a signal since its last publish, it waits for
one, or its wait is over and its publish is still to come. -/
inductive Consumer
  | busy
  | waiting
  | woken
  deriving DecidableEq, Repr

structure Loop where
  aggregator : Aggregator
  /-- The number of calls that have buffered an event and are about to start a timer. -/
  arming : Nat
  consumer : Consumer
  deriving DecidableEq

inductive Move
  /-- A call buffers an event, whether it is of interest or not. -/
  | arrive (e : Event)
  /-- The store does not return from an event, which is lost. -/
  | lose (e : Event)
  | arm
  | expire (time : Nat)
  | wait
  | publish
  deriving DecidableEq

/-- The call of the aggregator that a move makes, if it reaches the buffers. -/
def Move.call? : Move → Option Call
  | .arrive e => some (.notify e)
  | .publish => some .publish
  | .lose _ | .arm | .expire _ | .wait => none

/-- A move that the loop makes by itself: no event has to arrive for it. -/
def Move.isOwn : Move → Bool
  | .arrive _ | .lose _ => false
  | .arm | .expire _ | .wait | .publish => true

namespace Loop

def start (tracked : TrackedKeys) (wait : Nat) : Loop :=
  ⟨.start tracked wait, 0, .busy⟩

def arrive (l : Loop) (e : Event) : Loop :=
  match l.aggregator.buffered? e with
  | none => l
  | some (a, arms) => { l with aggregator := a, arming := l.arming + arms.toNat }

/-- A signal ends the wait of a consumer that waits. -/
def expire (l : Loop) (t : Nat) : Loop :=
  let signals := l.aggregator.signals.expire t
  match l.consumer with
  | .waiting => { l with
      aggregator := { l.aggregator with signals := signals }, consumer := .woken }
  | _ => { l with aggregator := { l.aggregator with signals := signals.keep } }

/-- The consumer asks for a signal. A permit ends the wait at once. -/
def wait (l : Loop) : Loop :=
  if l.aggregator.signals.permit then
    { l with
      aggregator := { l.aggregator with signals := l.aggregator.signals.take }, consumer := .woken }
  else { l with consumer := .waiting }

/-- The loop after a move, if that move can be made. -/
def move? (l : Loop) : Move → Option Loop
  | .arrive e => some (l.arrive e)
  | .lose _ => some { l with aggregator := l.aggregator.poison }
  | .arm =>
    if 0 < l.arming then
      some { l with aggregator := l.aggregator.startTimer, arming := l.arming - 1 }
    else none
  | .expire t => if t ∈ l.aggregator.signals.timers then some (l.expire t) else none
  | .wait => if l.consumer = .busy then some l.wait else none
  | .publish =>
    if l.consumer = .woken then
      some { l with aggregator := l.aggregator.publish.2, consumer := .busy }
    else none

def run? (l : Loop) (ms : List Move) : Option Loop :=
  ms.foldlM move? l

/-- Wake-ups under way: timers about to start, timers that run, a permit, and a consumer whose wait
is over. -/
def outstanding (l : Loop) : Nat :=
  l.arming + l.aggregator.signals.timers.length + l.aggregator.signals.permit.toNat +
    if l.consumer = .woken then 1 else 0

/-! ### What a move does to the wake-ups under way -/

theorem arrive_signals (l : Loop) (e : Event) :
    (l.arrive e).consumer = l.consumer ∧
      (l.arrive e).aggregator.signals = l.aggregator.signals := by
  unfold arrive
  rw [Aggregator.buffered?_eq]
  cases l.aggregator.pending.buffer l.aggregator.tracked e <;> exact ⟨rfl, rfl⟩

/-- As many wake-ups are under way as the buffers ask for. -/
def Balanced (l : Loop) : Prop :=
  l.outstanding = if l.aggregator.pending.clear then 0 else 1

theorem balanced_start (tracked : TrackedKeys) (wait : Nat) : (start tracked wait).Balanced := rfl

theorem outstanding_expire (l : Loop) {t : Nat} (ht : t ∈ l.aggregator.signals.timers)
    (h : l.outstanding ≤ 1) : (l.expire t).outstanding = l.outstanding := by
  have hlength := Signals.length_timers_expire ht
  have hsignals : (l.aggregator.signals.expire t).permit = l.aggregator.signals.permit := rfl
  unfold outstanding expire at *
  -- The timer that ends is the only wake-up, so there is no permit that its signal could hide in.
  cases hp : l.aggregator.signals.permit <;> cases hc : l.consumer <;>
    simp_all [Signals.keep] <;> omega

theorem outstanding_wait {l : Loop} (h : l.consumer = .busy) :
    l.wait.outstanding = l.outstanding := by
  unfold wait
  split
  · rename_i hp
    simp [outstanding, Signals.take, hp, h]
  · simp [outstanding, h]

theorem balanced_arrive {l : Loop} (h : l.Balanced) (e : Event) : (l.arrive e).Balanced := by
  unfold Balanced arrive outstanding at *
  rw [Aggregator.buffered?_eq]
  cases l.aggregator.pending.buffer l.aggregator.tracked e with
  | none => exact h
  | some p =>
    simp only [Option.map_some, Bool.false_eq_true, if_false]
    cases hc : l.aggregator.pending.clear <;>
      simp only [hc, Bool.false_eq_true, if_false, if_true, Bool.toNat_false,
        Bool.toNat_true] at h ⊢ <;> omega

/-- The invariant of the loop: every move keeps the wake-ups in balance with the buffers. -/
theorem Balanced.move {l l' : Loop} (h : l.Balanced) {m : Move} (hm : l.move? m = some l') :
    l'.Balanced := by
  have hle : l.outstanding ≤ 1 := by
    rw [h]
    split <;> omega
  cases m with
  | arrive e =>
    obtain rfl := Option.some.inj hm
    exact balanced_arrive h e
  | lose e =>
    obtain rfl := Option.some.inj hm
    exact h
  | arm =>
    obtain ⟨hpos, hm⟩ := Option.ite_none_right_eq_some.1 hm
    obtain rfl := Option.some.inj hm
    have hlength : l.aggregator.startTimer.signals.timers.length =
        l.aggregator.signals.timers.length + 1 := List.length_append
    have hpermit : l.aggregator.startTimer.signals.permit = l.aggregator.signals.permit := rfl
    have hpending : l.aggregator.startTimer.pending = l.aggregator.pending := rfl
    unfold Balanced outstanding at *
    simp only [hlength, hpermit, hpending]
    omega
  | expire t =>
    obtain ⟨ht, hm⟩ := Option.ite_none_right_eq_some.1 hm
    obtain rfl := Option.some.inj hm
    have hpending : (l.expire t).aggregator.pending = l.aggregator.pending := by
      unfold expire
      cases l.consumer <;> rfl
    unfold Balanced
    rw [outstanding_expire l ht hle, hpending]
    exact h
  | wait =>
    obtain ⟨hc, hm⟩ := Option.ite_none_right_eq_some.1 hm
    obtain rfl := Option.some.inj hm
    have hpending : l.wait.aggregator.pending = l.aggregator.pending := by
      unfold wait
      split <;> rfl
    unfold Balanced
    rw [outstanding_wait hc, hpending]
    exact h
  | publish =>
    obtain ⟨hc, hm⟩ := Option.ite_none_right_eq_some.1 hm
    obtain rfl := Option.some.inj hm
    have hclear : l.aggregator.publish.2.pending.clear = true := rfl
    have hsignals : l.aggregator.publish.2.signals = l.aggregator.signals := rfl
    unfold Balanced outstanding at *
    simp only [hc, if_true, hclear, hsignals] at hle ⊢
    simp only [reduceCtorEq, if_false]
    omega

/-- A consumer that waits has taken the permit: a wake-up never stays unnoticed. -/
theorem permit_move {l l' : Loop} {m : Move} (hm : l.move? m = some l')
    (h : l.consumer = .waiting → l.aggregator.signals.permit = false) :
    l'.consumer = .waiting → l'.aggregator.signals.permit = false := by
  cases m with
  | arrive e =>
    obtain rfl := Option.some.inj hm
    rw [(arrive_signals l e).1, (arrive_signals l e).2]
    exact h
  | lose e =>
    obtain rfl := Option.some.inj hm
    exact h
  | arm =>
    obtain ⟨-, hm⟩ := Option.ite_none_right_eq_some.1 hm
    obtain rfl := Option.some.inj hm
    exact h
  | expire t =>
    obtain ⟨-, hm⟩ := Option.ite_none_right_eq_some.1 hm
    obtain rfl := Option.some.inj hm
    unfold expire
    split
    · exact fun hw => nomatch hw
    · rename_i hc
      exact fun hw => absurd hw hc
  | wait =>
    obtain ⟨-, hm⟩ := Option.ite_none_right_eq_some.1 hm
    obtain rfl := Option.some.inj hm
    unfold wait
    split
    · exact fun hw => nomatch hw
    · rename_i hp
      exact fun _ => Bool.eq_false_iff.2 hp
  | publish =>
    obtain ⟨-, hm⟩ := Option.ite_none_right_eq_some.1 hm
    obtain rfl := Option.some.inj hm
    exact fun hw => nomatch hw

/-! ### What a move does to the buffers -/

theorem arrive_aggregator (l : Loop) (e : Event) :
    (l.arrive e).aggregator.tracked = ((l.aggregator.receive e).getD l.aggregator).tracked ∧
      (l.arrive e).aggregator.pending = ((l.aggregator.receive e).getD l.aggregator).pending := by
  rw [Aggregator.receive_eq]
  unfold arrive
  rcases l.aggregator.buffered? e with _ | ⟨a, _ | _⟩ <;> exact ⟨rfl, rfl⟩

/-- The buffers hold the window `w`, which comes after the events `before`. -/
def Holds (t : TrackedKeys) (before w : List Event) (l : Loop) : Prop :=
  l.aggregator.tracked = t ∧ l.aggregator.pending = .ofEvents t before w

theorem Holds.arrive {t : TrackedKeys} {before w : List Event} {l : Loop} (h : l.Holds t before w)
    (e : Event) : (l.arrive e).Holds t before (w ++ [e]) := by
  obtain ⟨rfl, hp⟩ := h
  obtain ⟨htracked, hpending⟩ := arrive_aggregator l e
  exact ⟨htracked.trans (Aggregator.tracked_receive _ e),
    hpending.trans (Aggregator.pending_receive hp e)⟩

theorem Holds.move_of_silent {t : TrackedKeys} {before w : List Event} {l l' : Loop}
    (h : l.Holds t before w) {m : Move} (hcall : m.call? = none) (hm : l.move? m = some l') :
    l'.Holds t before w := by
  cases m with
  | arrive e => cases hcall
  | publish => cases hcall
  | lose e =>
    obtain rfl := Option.some.inj hm
    exact h
  | arm =>
    obtain ⟨-, hm⟩ := Option.ite_none_right_eq_some.1 hm
    obtain rfl := Option.some.inj hm
    exact h
  | expire time =>
    obtain ⟨-, hm⟩ := Option.ite_none_right_eq_some.1 hm
    obtain rfl := Option.some.inj hm
    unfold expire
    split <;> exact h
  | wait =>
    obtain ⟨-, hm⟩ := Option.ite_none_right_eq_some.1 hm
    obtain rfl := Option.some.inj hm
    unfold wait
    split <;> exact h

/-- A run closes windows as its calls do, whatever else happens in between. -/
theorem Holds.run {t : TrackedKeys} {before w : List Event} {l l' : Loop}
    (h : l.Holds t before w) {ms : List Move} (hrun : l.run? ms = some l') :
    l'.Holds t (before ++ (Call.windowsFrom w (ms.filterMap Move.call?)).1.flatten)
      (Call.windowsFrom w (ms.filterMap Move.call?)).2 := by
  induction ms generalizing l before w with
  | nil =>
    obtain rfl := Option.some.inj hrun
    rw [List.filterMap_nil, Call.windowsFrom, List.flatten_nil, List.append_nil]
    exact h
  | cons m ms ih =>
    obtain ⟨k, hk, hrun⟩ := foldlM_cons_eq_some hrun
    cases hcall : m.call? with
    | none =>
      rw [List.filterMap_cons_none hcall]
      exact ih (h.move_of_silent hcall hk) hrun
    | some call =>
      rw [List.filterMap_cons_some hcall]
      cases m with
      | arrive e =>
        obtain rfl := Option.some.inj hcall
        obtain rfl := Option.some.inj hk
        exact ih (h.arrive e) hrun
      | publish =>
        obtain rfl := Option.some.inj hcall
        obtain ⟨-, hk⟩ := Option.ite_none_right_eq_some.1 hk
        obtain rfl := Option.some.inj hk
        obtain ⟨rfl, hp⟩ := h
        have hpublished : Holds l.aggregator.tracked (before ++ w) []
            { l with aggregator := l.aggregator.publish.2, consumer := .busy } :=
          ⟨rfl, Aggregator.pending_publish hp⟩
        rw [Call.windowsFrom, List.flatten_cons, ← List.append_assoc]
        exact ih hpublished hrun
      | _ => cases hcall

/-! ### Progress -/

/-- From here the loop comes to a publish by itself. -/
def Publishes (l : Loop) : Prop :=
  ∃ ms k, (∀ m ∈ ms, m.isOwn = true) ∧ l.run? ms = some k ∧ (k.move? .publish).isSome = true

theorem Publishes.of_move {l l' : Loop} {m : Move} (hown : m.isOwn = true)
    (hm : l.move? m = some l') (h : l'.Publishes) : l.Publishes := by
  obtain ⟨ms, k, hms, hrun, hk⟩ := h
  refine ⟨m :: ms, k, ?_, (foldlM_cons_of_some hm ms).trans hrun, hk⟩
  rw [List.forall_mem_cons]
  exact ⟨hown, hms⟩

theorem publishes_of_woken {l : Loop} (h : l.consumer = .woken) : l.Publishes :=
  ⟨[], l, List.forall_mem_nil _, rfl, by simp [move?, h]⟩

theorem publishes_of_permit {l : Loop} (hp : l.aggregator.signals.permit = true)
    (hw : l.consumer = .waiting → l.aggregator.signals.permit = false) : l.Publishes := by
  cases hc : l.consumer with
  | woken => exact publishes_of_woken hc
  | waiting => exact absurd (hw hc) (by simp [hp])
  | busy =>
    refine .of_move (m := .wait) rfl (by rw [move?, if_pos hc]) (publishes_of_woken ?_)
    rw [wait, if_pos hp]

theorem publishes_of_timer {l : Loop} {t : Nat} (ht : t ∈ l.aggregator.signals.timers) :
    l.Publishes := by
  have hm : l.move? (.expire t) = some (l.expire t) := if_pos ht
  refine .of_move (m := .expire t) rfl hm ?_
  cases hc : l.consumer with
  | waiting => exact publishes_of_woken (by rw [expire, hc])
  | woken => exact publishes_of_woken (by simp only [expire, hc])
  | busy =>
    refine publishes_of_permit (by simp only [expire, hc]; rfl) fun hw => ?_
    simp only [expire, hc] at hw
    cases hw

/-- A wake-up that is under way leads to a publish. -/
theorem publishes_of_outstanding {l : Loop} (h : l.outstanding ≠ 0)
    (hw : l.consumer = .waiting → l.aggregator.signals.permit = false) : l.Publishes := by
  by_cases hc : l.consumer = .woken
  · exact publishes_of_woken hc
  by_cases hp : l.aggregator.signals.permit = true
  · exact publishes_of_permit hp hw
  cases ht : l.aggregator.signals.timers with
  | cons t ts => exact publishes_of_timer (ht ▸ List.mem_cons_self)
  | nil =>
    have harming : 0 < l.arming := by
      simp [outstanding, hc, hp, ht] at h
      omega
    have hm : l.move? .arm =
        some { l with aggregator := l.aggregator.startTimer, arming := l.arming - 1 } :=
      if_pos harming
    have hmem : l.aggregator.signals.now + l.aggregator.wait ∈
        l.aggregator.startTimer.signals.timers :=
      List.mem_append_right _ (List.mem_singleton_self _)
    exact .of_move (m := .arm) rfl hm (publishes_of_timer hmem)

/-! ### Calls that nothing interrupts -/

theorem run?_receive (l : Loop) (e : Event) :
    ∃ ms ∈ [[Move.arrive e], [.arrive e, .arm]], l.run? ms =
      some { l with aggregator := (l.aggregator.receive e).getD l.aggregator } := by
  have hrun : ∀ ms, l.run? (.arrive e :: ms) = (l.arrive e).run? ms := foldlM_cons_of_some rfl
  rw [Aggregator.receive_eq]
  cases hb : l.aggregator.buffered? e with
  | none => exact ⟨[.arrive e], by simp, by rw [hrun, arrive, hb]; rfl⟩
  | some p =>
    obtain ⟨a, arms⟩ := p
    cases arms with
    | false => exact ⟨[.arrive e], by simp, by rw [hrun, arrive, hb]; rfl⟩
    | true => exact ⟨[.arrive e, .arm], by simp, by rw [hrun, arrive, hb]; rfl⟩

/-- An event of the controller is a run of the loop: the event is buffered and starts its timer, or
the store does not return and the event is lost. -/
theorem run?_notify {l : Loop} {c : Controller} (hl : c.aggregator = l.aggregator) (e : Event) :
    ∃ ms ∈ [[Move.lose e], [.arrive e], [.arrive e, .arm]],
      l.run? ms = some { l with aggregator := (c.notify e).1.aggregator } := by
  rcases c.notify_aggregator e with hagg | hagg
  · refine ⟨[.lose e], List.mem_cons_self, ?_⟩
    rw [hagg, hl]
    rfl
  · obtain ⟨ms, hms, hrun⟩ := l.run?_receive e
    refine ⟨ms, List.mem_cons_of_mem _ hms, ?_⟩
    rw [hrun, hagg, hl]

/-- Where nobody waits, the passing of time is a run of the loop in which what is due ends. There
is no second timer whose signal could be lost on the first. -/
theorem run?_moveTo {l : Loop} (hle : l.outstanding ≤ 1) (hc : l.consumer ≠ .waiting)
    (time : Nat) :
    ∃ s, l.run? ((l.aggregator.signals.timers.filter (· ≤ time)).map .expire) =
        some { l with aggregator := { l.aggregator with signals := s } } ∧
      l.aggregator.signals.moveTo time = { s with now := time } := by
  have hlength : l.aggregator.signals.timers.length ≤ 1 := by
    unfold outstanding at hle
    omega
  unfold Signals.moveTo
  rcases ht : l.aggregator.signals.timers with _ | ⟨t, _ | ⟨u, ts⟩⟩
  · refine ⟨l.aggregator.signals, rfl, ?_⟩
    simp [ht]
  · by_cases hdue : t ≤ time
    · have hmem : t ∈ l.aggregator.signals.timers := ht ▸ List.mem_singleton_self t
      have hexpire : l.move? (.expire t) = some { l with
          aggregator := { l.aggregator with signals := (l.aggregator.signals.expire t).keep } } := by
        rw [move?, if_pos hmem, expire]
        cases hconsumer : l.consumer with
        | waiting => exact absurd hconsumer hc
        | _ => rfl
      refine ⟨(l.aggregator.signals.expire t).keep, ?_, ?_⟩
      · rw [List.filter_cons_of_pos (by simpa using hdue)]
        exact foldlM_cons_of_some hexpire []
      · simp [Signals.keep, Signals.expire, ht, hdue]
    · refine ⟨l.aggregator.signals, ?_, ?_⟩
      · rw [List.filter_cons_of_neg (by simpa using hdue)]
        rfl
      · simp [ht, hdue]
        omega
  · rw [ht] at hlength
    simp at hlength

/-! ### The wake-ups of a run -/

/-- In every state of the loop at most one wake-up is under way, and one is exactly if an event of
interest has arrived since the last publish. Without one the buffers are empty; with one the loop
comes to a publish by itself; and every publish hands over an event of interest. An event of the
controller and the passing of time are runs of the loop. -/
theorem outstanding_eq_one_iff (tracked : TrackedKeys) (wait : Nat) {ms : List Move} {l : Loop}
    (h : (start tracked wait).run? ms = some l) :
    let calls := ms.filterMap Move.call?
    let w := Call.openWindow calls
    l.outstanding ≤ 1 ∧
      (l.outstanding = 1 ↔ ∃ e ∈ w, tracked.accepts e = true) ∧
      (l.outstanding = 0 → l.aggregator.pending.Idle) ∧
      (l.outstanding = 1 → l.Publishes) ∧
      (∀ l', l.move? .publish = some l' →
        (∃ e ∈ w, tracked.accepts e = true) ∧
          l.aggregator.publish.1.Delivers tracked (Call.windows calls).flatten w) ∧
      (∀ (c : Controller) (e : Event), c.aggregator = l.aggregator →
        ∃ ms ∈ [[Move.lose e], [.arrive e], [.arrive e, .arm]],
          l.run? ms = some { l with aggregator := (c.notify e).1.aggregator }) ∧
      (l.consumer ≠ .waiting → ∀ time, ∃ s,
        l.run? ((l.aggregator.signals.timers.filter (· ≤ time)).map .expire) =
          some { l with aggregator := { l.aggregator with signals := s } } ∧
        l.aggregator.signals.moveTo time = { s with now := time }) := by
  intro calls w
  have hbalanced : l.Balanced :=
    foldlM_preserves (fun _ _ _ hm hl => Balanced.move hl hm) h (balanced_start tracked wait)
  have hpermit : l.consumer = .waiting → l.aggregator.signals.permit = false :=
    foldlM_preserves (P := fun l => l.consumer = .waiting → l.aggregator.signals.permit = false)
      (fun _ _ _ hm hl => permit_move hm hl) h fun _ => rfl
  have hstart : (start tracked wait).Holds tracked [] [] :=
    ⟨rfl, (Pending.ofEvents_nil tracked).symm⟩
  obtain ⟨-, hpending⟩ : l.Holds tracked (Call.windows calls).flatten w := hstart.run h
  have hclear : l.aggregator.pending.clear = !w.any tracked.accepts := by
    rw [hpending]
    rfl
  have hone : l.outstanding = 1 ↔ ∃ e ∈ w, tracked.accepts e = true := by
    rw [hbalanced, hclear, ← List.any_eq_true]
    cases w.any tracked.accepts <;> decide
  have hle : l.outstanding ≤ 1 := by
    rw [hbalanced]
    split <;> omega
  refine ⟨hle, hone, fun hzero => ?_, fun h1 => ?_, fun l' hl' => ⟨hone.1 ?_, ?_⟩,
    fun c e hagg => run?_notify hagg e, fun hc time => run?_moveTo hle hc time⟩
  · rw [hpending]
    refine Pending.idle_ofEvents _ fun e he => Bool.eq_false_iff.2 fun hacc => ?_
    have h1 := hone.2 ⟨e, he, hacc⟩
    omega
  · exact publishes_of_outstanding (by omega) hpermit
  · obtain ⟨hc, -⟩ := Option.ite_none_right_eq_some.1 hl'
    simp only [outstanding, hc, if_true] at hle ⊢
    omega
  · show l.aggregator.pending.snapshot.Delivers _ _ _
    rw [hpending]
    exact Snapshot.delivers_snapshot tracked _ w

/-- Two events of one burst, and the timer that the first of them started. -/
def burst (i : Ingress) : List Move :=
  [.wait, .arrive (.ingress ⟨none, some i⟩), .arrive .resync, .arm, .expire 5]

theorem outstanding_eq_one_iff_of_burst :
    let i : Ingress := ⟨.ofKey ⟨"default", "web"⟩, none⟩
    ∃ l l', (start ⟨none, none⟩ 5).run? (burst i) = some l ∧ l.outstanding = 1 ∧
      l.move? .publish = some l' ∧ l'.outstanding = 0 ∧ l'.aggregator.pending.Idle := by
  intro i
  have hrun : ((start ⟨none, none⟩ 5).run? (burst i)).isSome = true := by decide
  obtain ⟨l, hl⟩ := Option.isSome_iff_exists.1 hrun
  have hrun' : ((start ⟨none, none⟩ 5).run? (burst i ++ [.publish])).isSome = true := by decide
  obtain ⟨l', hl'⟩ := Option.isSome_iff_exists.1 hrun'
  have hpublish : l.move? .publish = some l' := by
    rw [run?, foldlM_append_of_some hl] at hl'
    obtain ⟨k, hk, hend⟩ := foldlM_cons_eq_some hl'
    exact hk.trans hend
  obtain ⟨-, hone, -⟩ := outstanding_eq_one_iff ⟨none, none⟩ 5 hl
  obtain ⟨hle, hone', hidle, -⟩ := outstanding_eq_one_iff ⟨none, none⟩ 5 hl'
  have hzero : l'.outstanding = 0 := by
    have hne : ¬l'.outstanding = 1 := by
      rw [hone']
      rintro ⟨e, he, -⟩
      cases he
    omega
  exact ⟨l, l', hl, hone.2 ⟨.resync, by decide, rfl⟩, hpublish, hzero, hidle hzero⟩

end Loop

end IngressCache
