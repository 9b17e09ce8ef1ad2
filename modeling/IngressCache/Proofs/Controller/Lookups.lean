import IngressCache.Proofs.Reference.Invalidation

/-!
# The books of the lookups

Whatever becomes of a lookup, it enters the books once: as one dependency of the target that asked,
under the secret that the reference leads to, and as one count under its own name.
-/

namespace IngressCache

/-! ### Series of a lookup -/

def outcome (found : Bool) : String :=
  if found then "found" else "missing"

theorem joined_lookup_inj {w w' : Wanted} {found found' : Bool}
    (h : Counter.joined [w.label, outcome found] = Counter.joined [w'.label, outcome found']) :
    w = w' ∧ found = found' := by
  revert h
  cases w <;> cases w' <;> cases found <;> cases found' <;> decide

theorem Metrics.count_recordLookup (m : Metrics) (w w' : Wanted) (found found' : Bool) :
    (m.recordLookup w.label found).lookups.count [w'.label, outcome found'] =
      m.lookups.count [w'.label, outcome found'] +
        if w' = w ∧ found' = found then 1 else 0 := by
  show (m.lookups.record [w.label, outcome found]).count [w'.label, outcome found'] = _
  by_cases h : w' = w ∧ found' = found
  · obtain ⟨rfl, rfl⟩ := h
    rw [Counter.count_record_self, if_pos ⟨rfl, rfl⟩]
  · rw [Counter.count_record_ne fun he => h (joined_lookup_inj he), if_neg h]
    rfl

theorem Resolution.isOk_result {α : Type} (r : Resolution α) : r.result.isOk = r.found := by
  unfold found
  cases r.result <;> rfl

/-! ### One lookup -/

/-- A call that looks up the material or the content of a secret. -/
inductive SecretLookup
  | tls (q : Query)
  | ca (q : Query)
  | dh (q : Query)
  | content (q : Query) (name : String)

namespace SecretLookup

def query : SecretLookup → Query
  | .tls q | .ca q | .dh q | .content q _ => q

def wanted : SecretLookup → Wanted
  | .tls _ => .tls
  | .ca _ => .ca
  | .dh _ => .dh
  | .content _ _ => .content

def action : SecretLookup → Controller.Action
  | .tls q => .tls q
  | .ca q => .ca q
  | .dh q => .dh q
  | .content q name => .content q name

end SecretLookup

namespace Controller

/-- Whether a lookup gets an answer. -/
def answers (c : Controller) : SecretLookup → Bool
  | .tls q => (c.tls q).2.isOk
  | .ca q => (c.ca q).2.isOk
  | .dh q => (c.dh q).2.isOk
  | .content q name => (c.content q name).2.isOk

/-- What a lookup is recorded as. -/
def dependency (c : Controller) (l : SecretLookup) : Dependency :=
  ⟨l.query.target, ⟨!c.answers l, .secret, c.policy.recorded l.query⟩⟩

theorem conclude_run {α : Type} (c : Controller) (w : Wanted) (q : Query)
    (ask : SecretStore → Key → SecretStore × Except Failure α) :
    let r := Resolution.run c.policy c.store q ask
    let found := (c.conclude w r).2.isOk
    (c.conclude w r).1 = { c.track ⟨q.target, ⟨!found, .secret, c.policy.recorded q⟩⟩ with
      store := r.store
      metrics := c.metrics.recordLookup w.label found } := by
  intro r found
  have hfound : found = r.found := r.isOk_result
  rw [hfound, ← Resolution.run_dependency]
  rfl

theorem act_lookup (c : Controller) (l : SecretLookup) :
    ∃ store, c.act l.action = { c.track (c.dependency l) with
      store := store
      metrics := c.metrics.recordLookup l.wanted.label (c.answers l) } := by
  cases l with
  | tls q => exact ⟨_, c.conclude_run .tls q _⟩
  | ca q => exact ⟨_, c.conclude_run .ca q _⟩
  | dh q => exact ⟨_, c.conclude_run .dh q _⟩
  | content q name => exact ⟨_, c.conclude_run .content q _⟩

/-- A lookup makes one dependency of its target, under the secret that the reference leads to or
the reference as it was written if it is rejected, and missing unless there is an answer. It is
counted once, under its name and its outcome. -/
theorem lookup_recorded_once (c : Controller) (l : SecretLookup) :
    let c' := c.act l.action
    ∃ id,
      (∀ k, c.policy.resolve l.query.ns l.query.reference = .ok k → id = k.ns ++ "/" ++ k.name) ∧
      (∀ f, c.policy.resolve l.query.ns l.query.reference = .error f → id = l.query.reference) ∧
      c'.record = { c.record with dependencies := c.record.dependencies ++
        [⟨l.query.target, ⟨!c.answers l, .secret, id⟩⟩] } ∧
      c'.tracker = c.tracker.track ⟨l.query.target, ⟨!c.answers l, .secret, id⟩⟩ ∧
      c'.metrics = { c.metrics with lookups := c'.metrics.lookups } ∧
      (∀ w found, c'.metrics.lookups.count [w.label, outcome found] =
        c.metrics.lookups.count [w.label, outcome found] +
          if w = l.wanted ∧ found = c.answers l then 1 else 0) ∧
      ∀ values, Counter.joined values ≠ Counter.joined [l.wanted.label, outcome (c.answers l)] →
        c'.metrics.lookups.count values = c.metrics.lookups.count values := by
  intro c'
  obtain ⟨store, hact⟩ := c.act_lookup l
  have hc' : c' = _ := hact
  rw [hc']
  refine ⟨c.policy.recorded l.query, fun k hk => ?_, fun f hf => ?_, rfl, rfl, rfl, fun w found => ?_,
    fun values hvalues => Counter.count_record_ne hvalues _⟩
  · unfold Policy.recorded
    rw [hk]
    rfl
  · unfold Policy.recorded
    rw [hf]
  · exact c.metrics.count_recordLookup l.wanted w (c.answers l) found

end Controller

end IngressCache
