import IngressCache.Proofs.Controller.Activity
import IngressCache.Session.Run

/-!
# Requests of a session

What the watches of a session bring is none of its requests: those on record are what it asked the
server itself, as far as it could be sent. Where the server refuses nothing and writes come back to
the listers at once, an object that could be sent is there after the call.
-/

namespace IngressCache

/-! ### What the watches leave alone -/

/-- A part of the controller that no watch touches. -/
structure Controller.Unwatched {β : Type} (f : Controller → β) : Prop where
  listers : ∀ c ls, f { c with listers := ls } = f c
  warn : ∀ c ws, f (c.warn ws) = f c
  noteListing : ∀ c path, f (c.noteListing path) = f c
  notify : ∀ c e, f (c.notify e).1 = f c

namespace Controller.Unwatched

variable {β : Type} {f : Controller → β}

theorem observe (hf : Unwatched f) (c : Controller) (k : Kind) (e : WatchEvent k.Object) :
    f (c.observe k e).1 = f c := by
  have hact : (c.observe k e).1 = c.act (.observe k e) := rfl
  have hadvanced : f (c.advanced k e) = f c := hf.listers c _
  rw [hact, act_observe]
  cases c.event? (.observe k e) with
  | none => exact hadvanced
  | some event => exact (hf.notify _ event).trans hadvanced

theorem follow (hf : Unwatched f) (c : Controller) (k : Kind) (ns : List (Notice k.Object)) :
    f (Session.follow c k ns).1 = f c := by
  induction ns generalizing c with
  | nil => rfl
  | cons n ns ih =>
    cases n with
    | listed => exact (ih _).trans (hf.noteListing c _)
    | fault => exact (ih _).trans (hf.warn c _)
    | step e =>
      have hobserve := hf.observe c k e
      unfold Session.follow
      rcases ho : c.observe k e with ⟨c', _ | _⟩
      · rw [ho] at hobserve
        exact hobserve
      · rw [ho] at hobserve
        exact (ih c').trans hobserve

theorem poll (hf : Unwatched f) (s : Session) (k : Kind) :
    f (s.poll k).controller = f s.controller := by
  unfold Session.poll
  cases s.watches.bind (·.of k) with
  | none => rfl
  | some w => exact hf.follow _ _ _

theorem settle (hf : Unwatched f) (s : Session) : f s.settle.controller = f s.controller := by
  unfold Session.settle
  induction Kind.all generalizing s with
  | nil => rfl
  | cons k ks ih => exact (ih (s.poll k)).trans (hf.poll s k)

theorem deliver (hf : Unwatched f) (s : Session) (k : Kind) (o : k.Object) :
    f (s.deliver k o).controller = f s.controller := by
  have hwatch : ∀ g : Watch k.Object → Watch k.Object,
      (s.withWatch k g).controller = s.controller := by
    intro g
    unfold Session.withWatch
    cases s.watches.bind (·.of k) <;> rfl
  unfold Session.deliver
  cases s.watches with
  | none => exact hf.listers s.controller _
  | some w => exact (hf.settle _).trans (congrArg f (hwatch _))

/-- Only the call of the server can touch it when an object is written. -/
theorem write (hf : Unwatched f) (s : Session) (k : Kind) (o : k.Object) (r : Request) :
    f (s.write k o r).1.controller = f (s.send r).1.controller := by
  unfold Session.write
  rcases s.send r with ⟨s', _ | _ | _⟩
  · rfl
  · show f (if s'.writeThrough then s'.deliver k o else s').controller = f s'.controller
    split
    · exact hf.deliver s' k o
    · rfl
  · rfl

end Controller.Unwatched

/-! ### What is on record -/

theorem Controller.unwatched_requests : Unwatched (·.record.requests) where
  listers _ _ := rfl
  warn _ _ := rfl
  noteListing _ _ := rfl
  notify c e := by
    have hreceive : ∀ c : Controller, (c.receive e).record = c.record := by
      intro c
      unfold receive
      cases c.aggregator.receive e <;> rfl
    have hcall : ∀ (c : Controller) (call : StoreCall),
        (c.callStore call).1.record.requests = c.record.requests := by
      intro c call
      unfold callStore
      split <;> dsimp only <;> split <;> rfl
    unfold notify
    dsimp only
    split
    · rw [hreceive]
      rfl
    · rename_i call _
      have hc := hcall (c.warn (c.aggregator.lockWarnings .write)) call
      split <;> rename_i hcalled <;> rw [hcalled] at hc
      · rw [hreceive]
        exact hc
      · exact hc

namespace Session

theorem requests_write (s : Session) (k : Kind) (o : k.Object) (r : Request) :
    (s.write k o r).1.controller.record.requests =
      s.controller.record.requests ++ [r].filter Request.isSendable := by
  refine (Controller.unwatched_requests.write s k o r).trans ?_
  unfold send
  cases h : r.isSendable with
  | true => simp [Controller.noteRequest, h]
  | false => simp [h]

theorem write_of_not_sendable (s : Session) {k : Kind} {o : k.Object} {r : Request}
    (hsend : r.isSendable = false) :
    s.write k o r = (s, .error (.ofApi k (ClusterObject.metadata o).nameOrEmpty .request)) := by
  unfold write send
  rw [hsend]
  rfl

/-- What was written was sent. -/
theorem isSendable_of_write_ok {s : Session} {k : Kind} {o : k.Object} {r : Request}
    (h : (s.write k o r).2 = .ok ()) : r.isSendable = true := by
  by_contra hsend
  rw [write_of_not_sendable s (eq_false_of_ne_true hsend)] at h
  cases h

theorem requests_of_write_ok {s : Session} {k : Kind} {o : k.Object} {r : Request}
    (h : (s.write k o r).2 = .ok ()) :
    (s.write k o r).1.controller.record.requests = s.controller.record.requests ++ [r] := by
  rw [requests_write, List.filter_cons_of_pos (isSendable_of_write_ok h), List.filter_nil]

/-! ### Writes that come back -/

/-- The server refuses nothing, and what is written comes to the listers at once. -/
structure Prompt (s : Session) : Prop where
  writeThrough : s.writeThrough = true
  watches : s.watches = none
  quiet : s.cluster.disturbances = []

theorem Prompt.write {s : Session} (hs : s.Prompt) {k : Kind} {o : k.Object} {r : Request}
    (hsend : r.isSendable = true) :
    (s.write k o r).2 = .ok () ∧
      (s.write k o r).1.controller.listers = s.controller.listers.step k (.apply o) := by
  have hanswer : s.cluster.answer = (s.cluster, .ok .echo) := by
    unfold Cluster.answer
    rw [hs.quiet]
  unfold Session.write send
  rw [if_pos hsend, hanswer]
  simp only [hs.writeThrough, if_true, deliver, hs.watches]
  exact ⟨trivial, rfl⟩

end Session

end IngressCache
