import IngressCache.Proofs.Change.Window
import IngressCache.Proofs.Controller.Activity

/-!
# The open window of a run

With a store that returns, the buffers of a running controller always hold a window of events, and
each action adds its event to that window, until a publish closes it.
-/

namespace IngressCache.Controller

theorem tracked_act {c : Controller} (h : ∀ call, c.store.answers call = true) (a : Action) :
    (c.act a).aggregator.tracked = c.aggregator.tracked := by
  obtain ⟨-, -, hagg⟩ := act_of_answers h a
  rw [hagg]
  split
  · rfl
  · exact Aggregator.tracked_receive _ _
  · rfl

theorem answers_act {c : Controller} (h : ∀ call, c.store.answers call = true) (a : Action)
    (call : StoreCall) : (c.act a).store.answers call = true := by
  rw [(act_of_answers h a).1]
  exact h call

/-- The buffers hold the events `w`, which arrived after the events `before`. -/
def Gathers (c : Controller) (before w : List Event) : Prop :=
  c.aggregator.pending = .ofEvents c.aggregator.tracked before w

theorem Gathers.act {c : Controller} {before w : List Event} (hc : c.Gathers before w)
    (h : ∀ call, c.store.answers call = true) {a : Action} (ha : a ≠ .publish) :
    (c.act a).Gathers before (w ++ (c.event? a).toList) := by
  obtain ⟨-, -, hagg⟩ := act_of_answers h a
  have htracked := tracked_act h a
  unfold Gathers
  rw [htracked]
  cases hev : c.event? a with
  | none =>
    rw [hev] at hagg
    have hsame : (c.act a).aggregator = c.aggregator := by
      cases a with
      | publish => exact absurd rfl ha
      | _ => exact hagg
    rw [hsame, Option.toList_none, List.append_nil]
    exact hc
  | some e =>
    rw [hev] at hagg
    have hreceive : (c.act a).aggregator = (c.aggregator.receive e).getD c.aggregator := by
      cases a with
      | publish => exact absurd rfl ha
      | _ => exact hagg
    rw [hreceive]
    exact Aggregator.pending_receive hc e

theorem Gathers.publish {c : Controller} {before w : List Event} (hc : c.Gathers before w) :
    (c.act .publish).Gathers (before ++ w) [] :=
  Aggregator.pending_publish hc

theorem gathers_start (settings : Settings) (acme : Except KeyFault AcmeKeys)
    (store : SecretStore) : (start settings acme store).Gathers [] [] :=
  (Pending.ofEvents_nil _).symm

/-! ### Runs -/

/-- The events that arrive in a run. -/
def events (c : Controller) : List Action → List Event
  | [] => []
  | a :: as => (c.event? a).toList ++ (c.act a).events as

theorem answers_run {c : Controller} (h : ∀ call, c.store.answers call = true)
    (as : List Action) : ∀ call, (c.run as).store.answers call = true :=
  run_invariant (P := fun c => ∀ call, c.store.answers call = true) (Q := fun _ => True)
    (fun _ a _ h => answers_act h a) h fun _ _ => trivial

theorem Gathers.run {c : Controller} {before w : List Event} (hc : c.Gathers before w)
    (h : ∀ call, c.store.answers call = true) {as : List Action} (has : .publish ∉ as) :
    (c.run as).Gathers before (w ++ c.events as) := by
  induction as generalizing c w with
  | nil =>
    rw [events, List.append_nil]
    exact hc
  | cons a as ih =>
    rw [List.mem_cons, not_or] at has
    rw [run_cons, events, ← List.append_assoc]
    exact ih (hc.act h (Ne.symm has.1)) (answers_act h a) has.2

theorem exists_gathers_run {c : Controller} {before w : List Event} (hc : c.Gathers before w)
    (h : ∀ call, c.store.answers call = true) (as : List Action) :
    ∃ before' w', (c.run as).Gathers before' w' := by
  induction as generalizing c before w with
  | nil => exact ⟨before, w, hc⟩
  | cons a as ih =>
    rw [run_cons]
    by_cases ha : a = .publish
    · subst ha
      exact ih hc.publish (answers_act h _)
    · exact ih (hc.act h ha) (answers_act h a)

end IngressCache.Controller
