import IngressCache.Proofs.Controller.Activity
import IngressCache.Proofs.Change.Window
import IngressCache.Session.Run

/-!
# Config maps that are filtered first

A watch hands on no change of a config map that is not tracked. The aggregator would refuse such a
change itself, so a run in which changes are filtered first goes like the one in which they are not:
every step gets the same answer and leaves the same session. Only a poisoned lock is reported less
often, since a change that is not handed on does not reach for it.
-/

namespace IngressCache

/-- The filter keeps exactly the changes that the aggregator accepts, if they have a side. -/
theorem TrackedKeys.change?_eq (t : TrackedKeys) {c : Change ConfigMap} (h : c.latest ≠ none) :
    t.change? c = if t.accepts (.configMap c) then some c else none := by
  obtain ⟨m, hm⟩ := Option.ne_none_iff_exists'.1 h
  simp only [change?, accepts, hm, Option.any_some, Option.all_some]

/-! ### One change -/

namespace Controller

/-- A change of a config map is filtered, and arrives if it is left. -/
def notifyTracked (c : Controller) (m : Change ConfigMap) : Controller × Bool :=
  match c.aggregator.tracked.change? m with
  | some m => c.notify (.configMap m)
  | none => (c, true)

/-- What a change that does not reach the aggregator leaves unreported. -/
def unreported (c : Controller) (m : Change ConfigMap) : List Warning :=
  if c.aggregator.tracked.accepts (.configMap m) then [] else c.aggregator.lockWarnings .write

theorem receive_of_not_accepts {c : Controller} {e : Event}
    (h : c.aggregator.tracked.accepts e = false) : c.receive e = c := by
  have hnone : c.aggregator.receive e = none := by
    rw [Aggregator.receive_eq_none_iff]
    exact Pending.buffer_of_not_accepts h _
  unfold receive
  rw [hnone]

/-- Handing on a change or filtering it first is the same but for what is reported of the lock. -/
theorem notify_eq_notifyTracked (c : Controller) {m : Change ConfigMap} (h : m.latest ≠ none) :
    c.notify (.configMap m) =
      ((c.notifyTracked m).1.warn (c.unreported m), (c.notifyTracked m).2) := by
  unfold notifyTracked unreported
  rw [TrackedKeys.change?_eq _ h]
  cases hacc : c.aggregator.tracked.accepts (.configMap m) with
  | true => simp only [if_true, warn, List.append_nil]
  | false =>
    show ((c.warn (c.aggregator.lockWarnings .write)).receive (.configMap m), true) = _
    rw [receive_of_not_accepts (c := c.warn _) hacc]
    rfl

end Controller

/-! ### Runs -/

namespace Session

def answerTracked (s : Session) : Step → Session × Answer
  | .notify (.configMap m) =>
    let (c, returned) := s.controller.notifyTracked m
    ({ s with controller := c }, if returned then .done else .broken)
  | x => s.answer x

/-- A step of a session that filters the changes of config maps. -/
def stepTracked (s : Session) (x : Step) : Session × Entry :=
  let (s, a) := s.answerTracked x
  let (s, record) := s.takeRecord
  (s, ⟨a, record⟩)

/-- The entries of a run, and the session after it. -/
def runBy (next : Session → Step → Session × Entry) : Session → List Step → List Entry × Session
  | s, [] => ([], s)
  | s, x :: xs =>
    let rest := runBy next (next s x).1 xs
    ((next s x).2 :: rest.1, rest.2)

def Entry.unwarned (e : Entry) : Entry :=
  { e with record := { e.record with warnings := [] } }

/-- Every change of a config map has a side. -/
def Step.Sided : Step → Prop
  | .notify (.configMap m) => m.latest ≠ none
  | _ => True

theorem runBy_step (s : Session) (xs : List Step) : (runBy step s xs).1 = s.steps xs := by
  induction xs generalizing s with
  | nil => rfl
  | cons x xs ih => exact congrArg ((s.step x).2 :: ·) (ih _)

theorem step_eq_stepTracked (s : Session) {x : Step} (h : x.Sided) :
    (s.step x).1 = (s.stepTracked x).1 ∧
      (s.step x).2.unwarned = (s.stepTracked x).2.unwarned := by
  have hother : s.answer x = s.answerTracked x →
      (s.step x).1 = (s.stepTracked x).1 ∧
        (s.step x).2.unwarned = (s.stepTracked x).2.unwarned := by
    intro heq
    unfold step stepTracked
    rw [heq]
    exact ⟨rfl, rfl⟩
  cases x with
  | notify e =>
    cases e with
    | configMap m =>
      let c := s.controller
      have hnotify : s.answer (.notify (.configMap m)) =
          ({ s with controller := (c.notifyTracked m).1.warn (c.unreported m) },
            if (c.notifyTracked m).2 then .done else .broken) := by
        unfold answer
        simp only [s.controller.notify_eq_notifyTracked h, c]
      unfold step stepTracked
      rw [hnotify]
      exact ⟨rfl, rfl⟩
    | _ => exact hother rfl
  | _ => exact hother rfl

/-- From any session on, whatever keys are tracked, it makes no difference whether the changes of
config maps are filtered, as long as each has a side: the session afterwards is the same, with its
buffers, timers and counters, and so is every entry of the run, with the answer that the step got,
but for the warnings. -/
theorem run_eq_filtered_run (s : Session) (xs : List Step) (h : ∀ x ∈ xs, x.Sided) :
    (runBy step s xs).2 = (runBy stepTracked s xs).2 ∧
      (s.steps xs).map Entry.unwarned = (runBy stepTracked s xs).1.map Entry.unwarned := by
  rw [← runBy_step]
  induction xs generalizing s with
  | nil => exact ⟨rfl, rfl⟩
  | cons x xs ih =>
    rw [List.forall_mem_cons] at h
    obtain ⟨hs, he⟩ := s.step_eq_stepTracked h.1
    obtain ⟨hafter, hentries⟩ := ih (s.stepTracked x).1 h.2
    simp only [runBy, List.map_cons, hs, he, hafter, hentries, and_self]

/-- A map of no interest comes, takes the place of a tracked one, and gives it back. -/
def swap (tracked other : ConfigMap) : List Step :=
  [.notify (.configMap ⟨none, some other⟩), .notify (.configMap ⟨some tracked, some other⟩),
    .advance 50, .notify (.configMap ⟨some other, some tracked⟩), .advance 30,
    .notify (.configMap ⟨some tracked, none⟩), .publish]

theorem run_eq_filtered_run_of_swap :
    let tracked : ConfigMap := ⟨.ofKey ⟨"ingress", "global"⟩, none⟩
    let other : ConfigMap := ⟨.ofKey ⟨"default", "other"⟩, none⟩
    let settings : Settings := { Settings.default with globalConfigMap := some "ingress/global" }
    let s : Session := ⟨.start settings settings.acmeKeys (.observer fun _ => false), ⟨[], []⟩,
      false, none⟩
    let s' := (runBy step s (swap tracked other)).2
    (∀ x ∈ swap tracked other, x.Sided) ∧
      s'.controller.aggregator.pending.global = ⟨some .empty, none⟩ ∧
      s'.controller.aggregator.signals.timers = [250] ∧
      s'.controller.metrics.events = [⟨["configmap", "update"], 1⟩, ⟨["configmap", "del"], 1⟩] := by
  intro tracked other settings s s'
  have hsided : ∀ x ∈ swap tracked other, x.Sided := by
    simp [swap, Step.Sided, Change.latest]
  have hfiltered : s' = (runBy stepTracked s (swap tracked other)).2 :=
    (run_eq_filtered_run s (swap tracked other) hsided).1
  refine ⟨hsided, ?_, ?_, ?_⟩
  · rw [hfiltered]
    decide
  · rw [hfiltered]
    decide
  · rw [hfiltered]
    decide

end Session

end IngressCache
