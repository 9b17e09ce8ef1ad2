import IngressCache.Proofs.Change.Window
import IngressCache.Proofs.Controller.Activity

/-!
# Delivery of events

Events arrive and the consumer publishes, in any order. Every publish hands over the events of
interest that arrived since the one before it, in the order of arrival, and nothing else.
-/

namespace IngressCache

inductive Call
  | notify (e : Event)
  | publish

namespace Call

def event? : Call → Option Event
  | .notify e => some e
  | .publish => none

/-- The windows that publishes close after the events `w`, and the window that stays open. -/
def windowsFrom (w : List Event) : List Call → List (List Event) × List Event
  | [] => ([], w)
  | .notify e :: calls => windowsFrom (w ++ [e]) calls
  | .publish :: calls => (w :: (windowsFrom [] calls).1, (windowsFrom [] calls).2)

def windows (calls : List Call) : List (List Event) :=
  (windowsFrom [] calls).1

def openWindow (calls : List Call) : List Event :=
  (windowsFrom [] calls).2

theorem flatten_windowsFrom (w : List Event) (calls : List Call) :
    (windowsFrom w calls).1.flatten ++ (windowsFrom w calls).2 = w ++ calls.filterMap event? := by
  induction calls generalizing w with
  | nil => simp [windowsFrom]
  | cons call calls ih =>
    cases call with
    | notify e =>
      have he : event? (.notify e) = some e := rfl
      rw [windowsFrom, ih, List.filterMap_cons_some he, List.append_assoc]
      rfl
    | publish =>
      rw [windowsFrom, List.flatten_cons, List.append_assoc, ih, List.filterMap_cons_none rfl]
      rfl

end Call

/-! ### Snapshots -/

def Snapshot.ofWindows (t : TrackedKeys) (before : List Event) : List (List Event) → List Snapshot
  | [] => []
  | w :: ws => (Pending.ofEvents t before w).snapshot :: ofWindows t (before ++ w) ws

theorem Snapshot.length_ofWindows (t : TrackedKeys) (before : List Event)
    (ws : List (List Event)) : (ofWindows t before ws).length = ws.length := by
  induction ws generalizing before with
  | nil => rfl
  | cons w ws ih => exact congrArg (· + 1) (ih (before ++ w))

theorem Snapshot.getElem?_ofWindows (t : TrackedKeys) (before : List Event)
    (ws : List (List Event)) (n : Nat) :
    (ofWindows t before ws)[n]? =
      ws[n]?.map fun w => (Pending.ofEvents t (before ++ (ws.take n).flatten) w).snapshot := by
  induction ws generalizing before n with
  | nil => rfl
  | cons w ws ih =>
    cases n with
    | zero => simp [ofWindows]
    | succ n =>
      rw [ofWindows, List.getElem?_cons_succ, ih, List.getElem?_cons_succ, List.take_succ_cons,
        List.flatten_cons, List.append_assoc]

/-- The snapshot hands over the window `w`, which comes after the events `before`. -/
structure Snapshot.Delivers (t : TrackedKeys) (before w : List Event) (s : Snapshot) : Prop where
  ingresses : s.ingresses = ⟨deletions .ingress w, updates .ingress w, additions .ingress w⟩
  services : s.services = ⟨deletions .service w, updates .service w, additions .service w⟩
  secrets : s.secrets = ⟨deletions .secret w, updates .secret w, additions .secret w⟩
  endpoints : s.endpoints = currents .endpoints w
  pods : s.pods = currents .pod w
  fullSync : s.fullSync = true ↔ ∃ e ∈ w, e.isBlank = true
  global : s.global = ⟨lastContent t.globalContent? before, lastContent t.globalContent? w⟩
  tcp : s.tcp = ⟨lastContent t.tcpContent? before, lastContent t.tcpContent? w⟩
  objects : s.objects =
    (if s.global.changed then ["update/global"] else []) ++
      (if s.tcp.changed then ["update/tcp-services"] else []) ++
      ((deletions .ingress w).map fun o => "del/ingress:" ++ objectKey o) ++
      ((updates .ingress w).map fun o => "update/ingress:" ++ objectKey o) ++
      ((additions .ingress w).map fun o => "add/ingress:" ++ objectKey o) ++
      ((currents .endpoints w).map fun o => "update/endpoint:" ++ objectKey o) ++
      ((deletions .service w).map fun o => "del/service:" ++ objectKey o) ++
      ((updates .service w).map fun o => "update/service:" ++ objectKey o) ++
      ((additions .service w).map fun o => "add/service:" ++ objectKey o) ++
      ((deletions .secret w).map fun o => "del/secret:" ++ objectKey o) ++
      ((updates .secret w).map fun o => "update/secret:" ++ objectKey o) ++
      ((additions .secret w).map fun o => "add/secret:" ++ objectKey o) ++
      ((currents .pod w).map fun o => "update/pod:" ++ objectKey o)

theorem Snapshot.delivers_snapshot (t : TrackedKeys) (before w : List Event) :
    (Pending.ofEvents t before w).snapshot.Delivers t before w where
  ingresses := rfl
  services := rfl
  secrets := rfl
  endpoints := rfl
  pods := rfl
  fullSync := List.any_eq_true
  global := rfl
  tcp := rfl
  objects := by
    show (Pending.ofEvents t before w).objects = _
    simp only [Pending.objects, Delta.describe, List.append_assoc]
    rfl

/-! ### Runs -/

namespace Controller

def serve (c : Controller) : List Call → List Snapshot × Controller
  | [] => ([], c)
  | .notify e :: calls => (c.notify e).1.serve calls
  | .publish :: calls => (c.publish.2 :: (c.publish.1.serve calls).1, (c.publish.1.serve calls).2)

/-- With buffers that hold a window, calls that the store returns from close that window and the
later ones. -/
theorem serve_eq {c : Controller} {t : TrackedKeys} {before w : List Event}
    (ht : c.aggregator.tracked = t) (hp : c.aggregator.pending = .ofEvents t before w)
    {calls : List Call}
    (h : ∀ e, .notify e ∈ calls → ∀ call, e.storeCall = some call →
      c.store.answers call = true) :
    (c.serve calls).1 = Snapshot.ofWindows t before (Call.windowsFrom w calls).1 ∧
      (c.serve calls).2.aggregator.pending =
        .ofEvents t (before ++ (Call.windowsFrom w calls).1.flatten)
          (Call.windowsFrom w calls).2 := by
  subst ht
  induction calls generalizing c before w with
  | nil =>
    refine ⟨rfl, ?_⟩
    rw [Call.windowsFrom, List.flatten_nil, List.append_nil]
    exact hp
  | cons call calls ih =>
    cases call with
    | notify e =>
      obtain ⟨-, -, hans, hagg⟩ := notify_of_answers (h e List.mem_cons_self)
      have htracked : (c.notify e).1.aggregator.tracked = c.aggregator.tracked := by
        rw [hagg]
        exact Aggregator.tracked_receive _ e
      have hpending : (c.notify e).1.aggregator.pending =
          .ofEvents (c.notify e).1.aggregator.tracked before (w ++ [e]) := by
        rw [htracked, hagg]
        exact Aggregator.pending_receive hp e
      rw [← htracked]
      refine ih (fun e' he' call hcall => ?_) hpending
      rw [hans]
      exact h e' (List.mem_cons_of_mem _ he') call hcall
    | publish =>
      have hsnapshot : c.publish.2 = (Pending.ofEvents c.aggregator.tracked before w).snapshot :=
        congrArg Pending.snapshot hp
      have hpending : c.publish.1.aggregator.pending =
          .ofEvents c.publish.1.aggregator.tracked (before ++ w) [] :=
        Aggregator.pending_publish hp
      have hstore : ∀ e, .notify e ∈ calls → ∀ call, e.storeCall = some call →
          c.publish.1.store.answers call = true :=
        fun e he => h e (List.mem_cons_of_mem _ he)
      obtain ⟨hrest, hend⟩ := ih hstore hpending
      refine ⟨?_, ?_⟩
      · show c.publish.2 :: _ = _
        rw [hsnapshot, hrest]
        rfl
      · refine hend.trans ?_
        rw [Call.windowsFrom, List.flatten_cons, List.append_assoc]
        rfl

/-- The n-th publish hands over the n-th window of events of interest, in the order of arrival. The
windows are a division of all events that arrived: none is lost, none comes twice, none is moved,
and what arrived since the last publish is still in the buffers. -/
theorem publishes_deliver_windows (settings : Settings) (acme : Except KeyFault AcmeKeys)
    (store : SecretStore) (calls : List Call)
    (h : ∀ e, .notify e ∈ calls → ∀ call, e.storeCall = some call → store.answers call = true) :
    let t : TrackedKeys := ⟨settings.globalConfigMap, settings.tcpConfigMap⟩
    let run := (start settings acme store).serve calls
    let windows := Call.windows calls
    run.1.length = windows.length ∧
      (∀ (n : Nat) (w : List Event) (s : Snapshot), windows[n]? = some w → run.1[n]? = some s →
        s.Delivers t ((windows.take n).flatten.filter t.accepts) (w.filter t.accepts)) ∧
      windows.flatten ++ Call.openWindow calls = calls.filterMap Call.event? ∧
      run.2.aggregator.pending = .ofEvents t windows.flatten (Call.openWindow calls) := by
  intro t run windows
  obtain ⟨hrun, hend⟩ : run.1 = Snapshot.ofWindows t [] windows ∧
      run.2.aggregator.pending = .ofEvents t windows.flatten (Call.openWindow calls) :=
    serve_eq rfl (Pending.ofEvents_nil t).symm h
  refine ⟨?_, fun n w s hw hs => ?_, Call.flatten_windowsFrom [] calls, hend⟩
  · rw [hrun, Snapshot.length_ofWindows]
  · rw [hrun, Snapshot.getElem?_ofWindows, hw, Option.map_some, Option.some.injEq,
      List.nil_append, ← Pending.ofEvents_filter] at hs
    rw [← hs]
    exact Snapshot.delivers_snapshot t _ _

/-- An ingress comes and goes, and something else changes. -/
def visit (i : Ingress) : List Call :=
  [.notify (.ingress ⟨none, some i⟩), .publish, .notify .resync,
    .notify (.ingress ⟨some i, none⟩), .publish]

theorem publishes_deliver_windows_of_visit :
    let i : Ingress := ⟨.ofKey ⟨"default", "web"⟩, none⟩
    let run := (start .default Settings.default.acmeKeys (.observer fun _ => false)).serve (visit i)
    ∃ s, run.1[1]? = some s ∧ s.ingresses.del = [i] ∧ s.fullSync = true ∧
      s.objects = ["del/ingress:default/web"] := by
  intro i run
  obtain ⟨hlength, hdelivers, -, -⟩ := publishes_deliver_windows .default
    Settings.default.acmeKeys (.observer fun _ => false) (visit i) fun _ _ _ _ => rfl
  have hlt : 1 < run.1.length := by
    rw [hlength]
    decide
  obtain ⟨s, hs⟩ : ∃ s, run.1[1]? = some s := ⟨_, List.getElem?_eq_getElem hlt⟩
  have hd := hdelivers 1 _ s rfl hs
  refine ⟨s, hs, ?_, hd.fullSync.2 ⟨.resync, List.mem_cons_self, rfl⟩, ?_⟩
  · rw [hd.ingresses]
    decide
  · rw [hd.objects, hd.global, hd.tcp]
    decide

end Controller

end IngressCache
