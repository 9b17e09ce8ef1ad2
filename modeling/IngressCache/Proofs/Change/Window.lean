import IngressCache.Change.Aggregator

/-!
# Windows of events

What the buffers hold, as a function of the events that arrived: those of the window since the
last publish, and for the contents of the tracked config maps those before it too. A change is
read by its sides alone, and every list of objects is in the order of arrival.
-/

namespace IngressCache

/-! ### Readings of a change -/

namespace Change

variable {α : Type}

def deleted? (c : Change α) : Option α :=
  match c.old, c.current with
  | some o, none => some o
  | _, _ => none

def updated? (c : Change α) : Option α :=
  match c.old, c.current with
  | some _, some o => some o
  | _, _ => none

def added? (c : Change α) : Option α :=
  match c.old, c.current with
  | none, some o => some o
  | _, _ => none

def isBlank (c : Change α) : Bool :=
  c.old.isNone && c.current.isNone

end Change

namespace Event

def change? : (k : Kind) → Event → Option (Change k.Object)
  | .ingress, .ingress c => some c
  | .service, .service c => some c
  | .endpoints, .endpoints c => some c
  | .secret, .secret c => some c
  | .configMap, .configMap c => some c
  | .pod, .pod c => some c
  | _, _ => none

def isBlank : Event → Bool
  | .ingress c => c.isBlank
  | .service c => c.isBlank
  | .endpoints c => c.isBlank
  | .secret c => c.isBlank
  | .configMap c => c.isBlank
  | .pod c => c.isBlank
  | .resync => true

end Event

namespace TrackedKeys

/-- True for an event that is of interest: every event but one of a config map that is not
tracked. -/
def accepts (t : TrackedKeys) : Event → Bool
  | .configMap c => c.latest.all fun m => t.tracks (objectKey m)
  | _ => true

theorem tracks_iff (t : TrackedKeys) (key : String) :
    t.tracks key = true ↔ t.global = some key ∨ t.tcp = some key := by
  simp [tracks]

theorem ne_of_not_tracks {t : TrackedKeys} {key : String} (h : t.tracks key = false) :
    t.global ≠ some key ∧ t.tcp ≠ some key := by
  rw [← not_or, ← tracks_iff]
  exact Bool.eq_false_iff.1 h

def globalContent? (t : TrackedKeys) (e : Event) : Option Texts :=
  ((e.change? .configMap).bind Change.current).bind fun m =>
    if t.global = some (objectKey m) then some m.content else none

/-- The content that an event brings for the other tracked config map. One key for both maps is
the key of the global one. -/
def tcpContent? (t : TrackedKeys) (e : Event) : Option Texts :=
  ((e.change? .configMap).bind Change.current).bind fun m =>
    if t.global = some (objectKey m) then none
    else if t.tcp = some (objectKey m) then some m.content else none

/-! ### Events of no interest -/

theorem change?_of_not_accepts {t : TrackedKeys} {e : Event} (h : t.accepts e = false)
    {k : Kind} (hk : k ≠ .configMap) : e.change? k = none := by
  cases e with
  | configMap c =>
    cases k with
    | configMap => exact absurd rfl hk
    | _ => rfl
  | _ => cases h

theorem blank_of_not_accepts {t : TrackedKeys} {e : Event} (h : t.accepts e = false) :
    e.isBlank = false ∧ t.globalContent? e = none ∧ t.tcpContent? e = none := by
  cases e with
  | configMap c =>
    rcases c with ⟨_ | o, _ | n⟩
    case none.none => cases h
    case some.none => exact ⟨rfl, rfl, rfl⟩
    case none.some | some.some =>
      obtain ⟨hg, htcp⟩ := ne_of_not_tracks h
      exact ⟨rfl, by simp [globalContent?, Event.change?, hg],
        by simp [tcpContent?, Event.change?, hg, htcp]⟩
  | _ => cases h

theorem filterMap_filter_accepts (t : TrackedKeys) {β : Type} {f : Event → Option β}
    (hf : ∀ e, t.accepts e = false → f e = none) (w : List Event) :
    (w.filter t.accepts).filterMap f = w.filterMap f := by
  rw [List.filterMap_filter]
  congr 1
  funext e
  cases he : t.accepts e with
  | true => rfl
  | false => exact (hf e he).symm

end TrackedKeys

/-! ### Readings of a window -/

def deletions (k : Kind) (w : List Event) : List k.Object :=
  w.filterMap fun e => (e.change? k).bind Change.deleted?

def updates (k : Kind) (w : List Event) : List k.Object :=
  w.filterMap fun e => (e.change? k).bind Change.updated?

def additions (k : Kind) (w : List Event) : List k.Object :=
  w.filterMap fun e => (e.change? k).bind Change.added?

def currents (k : Kind) (w : List Event) : List k.Object :=
  w.filterMap fun e => (e.change? k).bind Change.current

/-- The last content that events brought. -/
def lastContent (brings : Event → Option Texts) (w : List Event) : Option Texts :=
  (w.filterMap brings).getLast?

theorem lastContent_append (brings : Event → Option Texts) (v w : List Event) :
    lastContent brings (v ++ w) = (lastContent brings w <|> lastContent brings v) := by
  simp only [lastContent, List.filterMap_append, List.getLast?_append, Option.or_eq_orElse]
  rfl

theorem lastContent_concat (brings : Event → Option Texts) (w : List Event) (e : Event) :
    lastContent brings (w ++ [e]) = (brings e <|> lastContent brings w) := by
  rw [lastContent_append]
  cases h : brings e <;> simp [lastContent, h]

def deltaOf (k : Kind) (w : List Event) : Delta k.Object :=
  ⟨deletions k w, updates k w, additions k w⟩

/-- A change is put into exactly one buffer of its kind; without sides it goes nowhere. -/
theorem Delta.push_classify {α : Type} (d : Delta α) (c : Change α) :
    d.push c.classify =
      if c.isBlank then none
      else some ⟨d.del ++ c.deleted?.toList, d.upd ++ c.updated?.toList,
        d.add ++ c.added?.toList⟩ := by
  rcases c with ⟨_ | o, _ | n⟩ <;>
    simp [push, Change.classify, Change.isBlank, Change.deleted?, Change.updated?, Change.added?]

theorem pushCurrent_classify {α : Type} (l : List α) (c : Change α) :
    pushCurrent l c.classify =
      if c.isBlank then none else some (l ++ c.current.toList) := by
  rcases c with ⟨_ | o, _ | n⟩ <;> simp [pushCurrent, Change.classify, Change.isBlank]

theorem filterMap_concat {α β : Type} (f : α → Option β) (l : List α) (a : α) :
    (l ++ [a]).filterMap f = l.filterMap f ++ (f a).toList := by
  rw [List.filterMap_append]
  cases h : f a <;> simp [h]

theorem deltaOf_concat (k : Kind) (w : List Event) (e : Event) :
    deltaOf k (w ++ [e]) =
      ⟨(deltaOf k w).del ++ ((e.change? k).bind Change.deleted?).toList,
        (deltaOf k w).upd ++ ((e.change? k).bind Change.updated?).toList,
        (deltaOf k w).add ++ ((e.change? k).bind Change.added?).toList⟩ := by
  simp only [deltaOf, deletions, updates, additions, filterMap_concat]

theorem currents_concat (k : Kind) (w : List Event) (e : Event) :
    currents k (w ++ [e]) = currents k w ++ ((e.change? k).bind Change.current).toList := by
  simp only [currents, filterMap_concat]

/-! ### The buffers -/

/-- What the buffers hold after a window, with the events before it. -/
def Pending.ofEvents (t : TrackedKeys) (before w : List Event) : Pending where
  global := ⟨lastContent t.globalContent? before, lastContent t.globalContent? w⟩
  tcp := ⟨lastContent t.tcpContent? before, lastContent t.tcpContent? w⟩
  ingresses := deltaOf .ingress w
  services := deltaOf .service w
  secrets := deltaOf .secret w
  endpoints := currents .endpoints w
  pods := currents .pod w
  needFullSync := w.any Event.isBlank
  clear := !w.any t.accepts

theorem Pending.ofEvents_nil (t : TrackedKeys) : ofEvents t [] [] = empty := rfl

theorem Pending.published_ofEvents (t : TrackedKeys) (before w : List Event) :
    (ofEvents t before w).published = ofEvents t (before ++ w) [] := by
  simp only [published, ofEvents, Content.promote, lastContent_append]
  rfl

theorem Pending.ofEvents_concat (t : TrackedKeys) (before w : List Event) (e : Event) :
    ofEvents t before (w ++ [e]) =
      { global := ⟨lastContent t.globalContent? before,
          t.globalContent? e <|> lastContent t.globalContent? w⟩
        tcp := ⟨lastContent t.tcpContent? before,
          t.tcpContent? e <|> lastContent t.tcpContent? w⟩
        ingresses := deltaOf .ingress (w ++ [e])
        services := deltaOf .service (w ++ [e])
        secrets := deltaOf .secret (w ++ [e])
        endpoints := currents .endpoints (w ++ [e])
        pods := currents .pod (w ++ [e])
        needFullSync := w.any Event.isBlank || e.isBlank
        clear := !(w.any t.accepts || t.accepts e) } := by
  simp only [ofEvents, lastContent_concat, List.any_append, List.any_cons, List.any_nil,
    Bool.or_false]

theorem Pending.buffer_ofEvents (t : TrackedKeys) (before w : List Event) {e : Event}
    (h : t.accepts e = true) :
    (ofEvents t before w).buffer t e =
      some { ofEvents t before (w ++ [e]) with clear := (ofEvents t before w).clear } := by
  rw [ofEvents_concat]
  cases e with
  | configMap c =>
    rcases c with ⟨_ | o, _ | n⟩
    case none.none | some.none =>
      simp_all [buffer, bufferConfigMap, Change.classify, ofEvents, deltaOf_concat,
        currents_concat, Event.change?, Event.isBlank, Change.isBlank,
        TrackedKeys.globalContent?, TrackedKeys.tcpContent?, TrackedKeys.accepts, Change.latest]
    -- A tracked map is the global one, or else it is the other one.
    case none.some | some.some =>
      have htracked := (TrackedKeys.tracks_iff t (objectKey n)).1 h
      by_cases hg : t.global = some (objectKey n)
      · simp [buffer, bufferConfigMap, Change.classify, ofEvents, deltaOf_concat,
          currents_concat, Event.change?, Event.isBlank, Change.isBlank,
          TrackedKeys.globalContent?, TrackedKeys.tcpContent?, hg]
      · simp [buffer, bufferConfigMap, Change.classify, ofEvents, deltaOf_concat,
          currents_concat, Event.change?, Event.isBlank, Change.isBlank,
          TrackedKeys.globalContent?, TrackedKeys.tcpContent?, hg, htracked.resolve_left hg]
  | resync =>
    simp [buffer, ofEvents, deltaOf_concat, currents_concat, Event.change?, Event.isBlank,
      TrackedKeys.globalContent?, TrackedKeys.tcpContent?]
  | _ c =>
    rcases c with ⟨_ | o, _ | n⟩ <;>
      simp [buffer, ofEvents, Delta.push_classify, pushCurrent_classify, deltaOf_concat,
        currents_concat, Event.change?, Event.isBlank, Change.isBlank, Change.deleted?,
        Change.updated?, Change.added?, TrackedKeys.globalContent?, TrackedKeys.tcpContent?]

theorem Pending.buffer_of_not_accepts {t : TrackedKeys} {e : Event} (h : t.accepts e = false)
    (p : Pending) : p.buffer t e = none := by
  cases e with
  | configMap c =>
    rcases c with ⟨_ | o, _ | n⟩
    case none.none => cases h
    case some.none =>
      have ho : t.tracks (objectKey o) = false := h
      simp [buffer, bufferConfigMap, Change.classify, ho]
    case none.some | some.some =>
      obtain ⟨hg, htcp⟩ := TrackedKeys.ne_of_not_tracks h
      simp [buffer, bufferConfigMap, Change.classify, hg, htcp]
  | _ => cases h

theorem Pending.ofEvents_filter (t : TrackedKeys) (before w : List Event) :
    ofEvents t (before.filter t.accepts) (w.filter t.accepts) = ofEvents t before w := by
  have hchange : ∀ {α : Type} (k : Kind) (f : Change k.Object → Option α), k ≠ .configMap →
      ∀ e, t.accepts e = false → (e.change? k).bind f = none := by
    intro α k f hk e he
    rw [TrackedKeys.change?_of_not_accepts he hk, Option.bind_none]
  have hdelta : ∀ k, k ≠ .configMap → deltaOf k (w.filter t.accepts) = deltaOf k w := by
    intro k hk
    simp only [deltaOf, deletions, updates, additions, t.filterMap_filter_accepts (hchange k _ hk)]
  have hcurrents : ∀ k, k ≠ .configMap → currents k (w.filter t.accepts) = currents k w :=
    fun k hk => t.filterMap_filter_accepts (hchange k _ hk) w
  have hglobal : ∀ l : List Event, lastContent t.globalContent? (l.filter t.accepts) =
      lastContent t.globalContent? l := fun l =>
    congrArg List.getLast? (t.filterMap_filter_accepts
      (fun _ he => (TrackedKeys.blank_of_not_accepts he).2.1) l)
  have htcp : ∀ l : List Event, lastContent t.tcpContent? (l.filter t.accepts) =
      lastContent t.tcpContent? l := fun l =>
    congrArg List.getLast? (t.filterMap_filter_accepts
      (fun _ he => (TrackedKeys.blank_of_not_accepts he).2.2) l)
  have hblank : (w.filter t.accepts).any Event.isBlank = w.any Event.isBlank := by
    rw [List.any_filter]
    congr 1
    funext e
    cases he : t.accepts e with
    | true => rfl
    | false => rw [(TrackedKeys.blank_of_not_accepts he).1, Bool.false_and]
  have hclear : (w.filter t.accepts).any t.accepts = w.any t.accepts := by
    simp only [List.any_filter, Bool.and_self]
  simp only [ofEvents, hglobal, htcp, hblank, hclear, hdelta .ingress (by decide),
    hdelta .service (by decide), hdelta .secret (by decide), hcurrents .endpoints (by decide),
    hcurrents .pod (by decide)]

theorem Aggregator.pending_receive {a : Aggregator} {before w : List Event}
    (h : a.pending = .ofEvents a.tracked before w) (e : Event) :
    ((a.receive e).getD a).pending = .ofEvents a.tracked before (w ++ [e]) := by
  unfold receive Pending.notify
  rw [h]
  cases ha : a.tracked.accepts e with
  | true =>
    rw [Pending.buffer_ofEvents a.tracked before w ha]
    have hclear : (Pending.ofEvents a.tracked before (w ++ [e])).clear = false := by
      simp [Pending.ofEvents, ha]
    show { Pending.ofEvents a.tracked before (w ++ [e]) with clear := false } = _
    rw [← hclear]
  | false =>
    rw [Pending.buffer_of_not_accepts ha, ← Pending.ofEvents_filter a.tracked before (w ++ [e]),
      List.filter_append, List.filter_cons_of_neg (by simp [ha]), List.filter_nil,
      List.append_nil, Pending.ofEvents_filter]
    exact h

theorem Aggregator.tracked_receive (a : Aggregator) (e : Event) :
    ((a.receive e).getD a).tracked = a.tracked := by
  unfold receive
  cases a.pending.notify a.tracked e <;> rfl

theorem Aggregator.pending_publish {a : Aggregator} {before w : List Event}
    (h : a.pending = .ofEvents a.tracked before w) :
    a.publish.2.pending = .ofEvents a.tracked (before ++ w) [] := by
  rw [← Pending.published_ofEvents, ← h]
  rfl

end IngressCache
