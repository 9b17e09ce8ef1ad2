import IngressCache.Controller
import IngressCache.Proofs.Material.Following

/-!
# Runs of the controller

What can happen to a running controller, one action at a time, and what each action does to its
parts: events change the store and the aggregator, steps of a watch change a lister besides, and
lookups change the store alone.
-/

namespace IngressCache

/-! ### Stores that return -/

def SecretStore.answers : SecretStore → StoreCall → Bool
  | .files _, _ => true
  | .observer breaks, call => !breaks call

/-- What the store knows under a written key. -/
def SecretStore.known? (t : String) : SecretStore → Option Material
  | .files st => st.cached.get? t
  | .observer _ => none

theorem SecretStore.call_of_answers (secrets : Lister Secret) {st : SecretStore}
    {call : StoreCall} (h : st.answers call = true) :
    ∃ st' warnings, st.call secrets call = some (st', warnings) ∧ st'.answers = st.answers := by
  cases st with
  | files s => exact ⟨_, _, rfl, rfl⟩
  | observer breaks =>
    have hb : breaks call = false := by simpa [answers] using h
    exact ⟨.observer breaks, [], by simp [SecretStore.call, hb], rfl⟩

def CertStore.after (secrets : Lister Secret) (st : CertStore) (e : Event) : CertStore :=
  match e.storeCall with
  | none => st
  | some call => (st.follow secrets call).1

/-! ### A step reaches one lister -/

theorem Listers.of_step_self (ls : Listers) (k : Kind) (e : WatchEvent k.Object) :
    (ls.step k e).of k = (ls.of k).map (·.step e) := by
  unfold step
  cases h : ls.of k with
  | none => exact h
  | some l => exact ls.of_set k _

theorem Listers.of_step_ne {j k : Kind} (h : j ≠ k) (ls : Listers) (e : WatchEvent k.Object) :
    (ls.step k e).of j = ls.of j := by
  unfold step
  cases ls.of k with
  | none => rfl
  | some l => cases k <;> cases j <;> first | rfl | exact absurd rfl h

namespace Controller

/-! ### Actions -/

/-- What can happen to a running controller. -/
inductive Action
  /-- A watch takes a step, and what it reports is handed on. -/
  | observe (k : Kind) (e : WatchEvent k.Object)
  /-- An event arrives that no lister saw. -/
  | notify (e : Event)
  | publish
  | certificate (key : Key)
  | tls (q : Query)
  | ca (q : Query)
  | dh (q : Query)
  | content (q : Query) (name : String)

def Action.secret? : Action → Option Secret
  | .observe .secret e => e.object?
  | _ => none

def act (c : Controller) : Action → Controller
  | .observe k e => (c.observe k e).1
  | .notify e => (c.notify e).1
  | .publish => c.publish.1
  | .certificate key => { c with store := (c.store.certificate c.listers.secrets key).1 }
  | .tls q => (c.tls q).1
  | .ca q => (c.ca q).1
  | .dh q => (c.dh q).1
  | .content q name => (c.content q name).1

def run (c : Controller) (as : List Action) : Controller :=
  as.foldl act c

theorem run_cons (c : Controller) (a : Action) (as : List Action) :
    c.run (a :: as) = (c.act a).run as := rfl

theorem run_append (c : Controller) (as bs : List Action) :
    c.run (as ++ bs) = (c.run as).run bs :=
  List.foldl_append

/-- What every allowed action preserves, every run of such actions preserves. -/
theorem run_invariant {P : Controller → Prop} {Q : Action → Prop}
    (hstep : ∀ c a, Q a → P c → P (c.act a)) {c : Controller} (h : P c) {as : List Action}
    (has : ∀ a ∈ as, Q a) : P (c.run as) := by
  induction as generalizing c with
  | nil => exact h
  | cons a as ih =>
    rw [run_cons]
    refine ih (hstep c a (has a List.mem_cons_self) h) fun b hb => ?_
    exact has b (List.mem_cons_of_mem _ hb)

/-! ### Events -/

@[simp] theorem warn_listers (c : Controller) (ws : List Warning) :
    (c.warn ws).listers = c.listers := rfl

@[simp] theorem warn_store (c : Controller) (ws : List Warning) :
    (c.warn ws).store = c.store := rfl

@[simp] theorem warn_aggregator (c : Controller) (ws : List Warning) :
    (c.warn ws).aggregator = c.aggregator := rfl

@[simp] theorem warn_settings (c : Controller) (ws : List Warning) :
    (c.warn ws).settings = c.settings := rfl

@[simp] theorem receive_listers (c : Controller) (e : Event) :
    (c.receive e).listers = c.listers := by
  unfold receive
  split <;> rfl

@[simp] theorem receive_store (c : Controller) (e : Event) :
    (c.receive e).store = c.store := by
  unfold receive
  split <;> rfl

@[simp] theorem receive_settings (c : Controller) (e : Event) :
    (c.receive e).settings = c.settings := by
  unfold receive
  split <;> rfl

theorem receive_aggregator (c : Controller) (e : Event) :
    (c.receive e).aggregator = (c.aggregator.receive e).getD c.aggregator := by
  unfold receive
  split <;> simp_all

theorem callStore_of_answers {c : Controller} {call : StoreCall}
    (h : c.store.answers call = true) :
    ∃ c', c.callStore call = (c', true) ∧ c'.listers = c.listers ∧
      c'.aggregator = c.aggregator ∧ c'.settings = c.settings ∧
      c'.store.answers = c.store.answers := by
  obtain ⟨st, ws, hcall, hst⟩ := SecretStore.call_of_answers c.listers.secrets h
  unfold callStore
  cases c.store.isObserved with
  | false =>
    simp only [Bool.false_eq_true, if_false, hcall]
    exact ⟨_, rfl, rfl, rfl, rfl, hst⟩
  | true =>
    simp only [if_true, hcall]
    exact ⟨_, rfl, rfl, rfl, rfl, hst⟩

theorem callStore_files {c : Controller} {st : CertStore} (h : c.store = .files st)
    (call : StoreCall) :
    ∃ c', c.callStore call = (c', true) ∧ c'.listers = c.listers ∧
      c'.store = .files (st.follow c.listers.secrets call).1 := by
  unfold callStore
  simp only [h, SecretStore.isObserved, SecretStore.call, Bool.false_eq_true, if_false]
  exact ⟨_, rfl, rfl, rfl⟩

/-- An event of which the store returns changes the aggregator as if there were no store. -/
theorem notify_of_answers {c : Controller} {e : Event}
    (h : ∀ call, e.storeCall = some call → c.store.answers call = true) :
    (c.notify e).1.listers = c.listers ∧ (c.notify e).1.settings = c.settings ∧
      (c.notify e).1.store.answers = c.store.answers ∧
      (c.notify e).1.aggregator = (c.aggregator.receive e).getD c.aggregator := by
  unfold notify
  cases hcall : e.storeCall with
  | none => simp [receive_aggregator]
  | some call =>
    have ha : (c.warn (c.aggregator.lockWarnings .write)).store.answers call = true :=
      h call hcall
    obtain ⟨c', hc, hl, hagg, hset, hans⟩ := callStore_of_answers ha
    simp only [hc, receive_listers, receive_settings, receive_store, receive_aggregator, hl, hagg,
      hset, hans]
    exact ⟨rfl, rfl, rfl, rfl⟩

theorem notify_files {c : Controller} {st : CertStore} (h : c.store = .files st) (e : Event) :
    (c.notify e).1.listers = c.listers ∧
      (c.notify e).1.store = .files (st.after c.listers.secrets e) := by
  unfold notify CertStore.after
  cases hcall : e.storeCall with
  | none => simp [h]
  | some call =>
    have hw : (c.warn (c.aggregator.lockWarnings .write)).store = .files st := h
    obtain ⟨c', hc, hl, hst⟩ := callStore_files hw call
    simp only [hc, receive_listers, receive_store, hl, hst]
    exact ⟨rfl, rfl⟩

/-- A call of the store leaves all but the store and the record, whether or not it returns. -/
theorem callStore_frame (c : Controller) (call : StoreCall) :
    (c.callStore call).1.listers = c.listers ∧
      (c.callStore call).1.aggregator = c.aggregator ∧
      (c.callStore call).1.settings = c.settings := by
  unfold callStore
  cases c.store.isObserved <;> simp only [if_true, Bool.false_eq_true, if_false] <;> split <;>
    exact ⟨rfl, rfl, rfl⟩

/-- An event reaches the aggregator, or the store did not return and it is lost. -/
theorem notify_cases (c : Controller) (e : Event) :
    ∃ c' : Controller, c'.listers = c.listers ∧ c'.aggregator = c.aggregator ∧
      c'.settings = c.settings ∧
      ((c.notify e).1 = c'.receive e ∨
        (c.notify e).1 = { c' with aggregator := c'.aggregator.poison }) := by
  unfold notify
  cases e.storeCall with
  | none => exact ⟨c.warn (c.aggregator.lockWarnings .write), rfl, rfl, rfl, .inl rfl⟩
  | some call =>
    have hframe := callStore_frame (c.warn (c.aggregator.lockWarnings .write)) call
    rcases hcs : (c.warn (c.aggregator.lockWarnings .write)).callStore call with ⟨c', returned⟩
    rw [hcs] at hframe
    obtain ⟨hl, hagg, hset⟩ := hframe
    refine ⟨c', hl, hagg, hset, ?_⟩
    cases returned with
    | false =>
      simp only [hcs]
      exact .inr trivial
    | true =>
      simp only [hcs]
      exact .inl trivial

/-! ### Steps of a watch -/

def event? (c : Controller) : Action → Option Event
  | .observe k e =>
    (c.listers.of k).bind fun l => (l.report e).event? c.classFilter c.aggregator.tracked k
  | .notify e => some e
  | _ => none

/-- The controller when a step of a watch has reached its lister and nobody else. -/
def advanced (c : Controller) (k : Kind) (e : WatchEvent k.Object) : Controller :=
  { c with listers := c.listers.step k e }

theorem event?_observe (c : Controller) (k : Kind) (e : WatchEvent k.Object) :
    c.event? (.observe k e) =
      (c.listers.of k).bind fun l =>
        (l.report e).event? c.classFilter c.aggregator.tracked k := rfl

theorem act_observe (c : Controller) (k : Kind) (e : WatchEvent k.Object) :
    c.act (.observe k e) =
      match c.event? (.observe k e) with
      | none => c.advanced k e
      | some event => ((c.advanced k e).notify event).1 := by
  show (c.observe k e).1 = _
  rw [event?_observe]
  unfold observe advanced Listers.step
  cases hl : c.listers.of k with
  | none => rfl
  | some l =>
    have hf : ∀ ls : Listers, { c with listers := ls }.classFilter = c.classFilter := fun _ => rfl
    simp only [Option.bind_some, hf]
    cases (l.report e).event? c.classFilter c.aggregator.tracked k <;> rfl

theorem secrets_step_of_ne {k : Kind} (h : k ≠ .secret) (l : Listers) (e : WatchEvent k.Object) :
    (l.step k e).secrets = l.secrets :=
  Option.some.inj (Listers.of_step_ne (Ne.symm h) l e)

theorem configMaps_step_of_ne {k : Kind} (h : k ≠ .configMap) (l : Listers)
    (e : WatchEvent k.Object) : (l.step k e).configMaps = l.configMaps :=
  Option.some.inj (Listers.of_step_ne (Ne.symm h) l e)

end Controller

/-! ### Lookups -/

theorem Resolution.run_store {α : Type} (policy : Policy) {store : SecretStore} (q : Query)
    {ask : SecretStore → Key → SecretStore × Except Failure α} {P : SecretStore → Prop}
    (h : P store) (hask : ∀ key, policy.resolve q.ns q.reference = .ok key → P (ask store key).1) :
    P (run policy store q ask).store := by
  unfold run
  split
  · exact h
  · rename_i key hkey
    have hkey := hask key hkey
    generalize ask store key = answer at hkey ⊢
    rcases answer with ⟨st, _ | _⟩ <;> exact hkey

theorem SecretStore.answers_certificate (secrets : Lister Secret) (st : SecretStore) (key : Key) :
    (st.certificate secrets key).1.answers = st.answers := by
  cases st <;> rfl

theorem SecretStore.answers_addDhParameters (st : SecretStore) (name : String)
    (content : Bytes) : (st.addDhParameters name content).1.answers = st.answers := by
  cases st <;> rfl

namespace Controller

def Action.isLookup : Action → Bool
  | .certificate _ | .tls _ | .ca _ | .dh _ | .content _ _ => true
  | _ => false

/-- The action asks the store for the material of a secret. -/
def Action.Asks (p : Policy) (key : Key) : Action → Prop
  | .certificate k => k = key
  | .tls q | .ca q => p.resolve q.ns q.reference = .ok key
  | _ => False

/-- What holds of the store, and of the store after it was asked for material or wrote parameters,
holds of it after a lookup. -/
theorem store_act_of_isLookup (c : Controller) {P : SecretStore → Prop} (h : P c.store)
    {a : Action} (ha : a.isLookup = true)
    (hcertificate : ∀ key, a.Asks c.policy key → P (c.store.certificate c.listers.secrets key).1)
    (hparameters : ∀ name content, P (c.store.addDhParameters name content).1) :
    P (c.act a).store := by
  cases a with
  | certificate key => exact hcertificate key rfl
  | tls q => exact Resolution.run_store c.policy q h hcertificate
  | ca q => exact Resolution.run_store c.policy q h hcertificate
  | content q name => exact Resolution.run_store c.policy q h fun _ _ => h
  | dh q =>
    refine Resolution.run_store c.policy q h fun key _ => ?_
    simp only
    split
    · exact h
    · exact hparameters _ _
  | _ => cases ha

theorem act_of_isLookup (c : Controller) {a : Action} (ha : a.isLookup = true) :
    (c.act a).listers = c.listers ∧ (c.act a).aggregator = c.aggregator ∧
      (c.act a).store.answers = c.store.answers := by
  have hans := store_act_of_isLookup c (P := fun st => st.answers = c.store.answers) rfl ha
    (fun key _ => SecretStore.answers_certificate _ _ key)
    (fun name content => SecretStore.answers_addDhParameters _ name content)
  cases a with
  | certificate key => exact ⟨rfl, rfl, hans⟩
  | tls q => exact ⟨rfl, rfl, hans⟩
  | ca q => exact ⟨rfl, rfl, hans⟩
  | dh q => exact ⟨rfl, rfl, hans⟩
  | content q name => exact ⟨rfl, rfl, hans⟩
  | _ => cases ha

/-! ### Every action -/

/-- With a store that returns, an action reaches the aggregator as a publish or as its event. -/
theorem act_of_answers {c : Controller} (h : ∀ call, c.store.answers call = true) (a : Action) :
    (c.act a).store.answers = c.store.answers ∧
      (c.act a).listers = (match a with
        | .observe k e => c.listers.step k e
        | _ => c.listers) ∧
      (c.act a).aggregator = (match a, c.event? a with
        | .publish, _ => c.aggregator.publish.2
        | _, some e => (c.aggregator.receive e).getD c.aggregator
        | _, none => c.aggregator) := by
  have hlookup := act_of_isLookup c (a := a)
  cases a with
  | observe k e =>
    rw [act_observe]
    cases hev : c.event? (.observe k e) with
    | none => exact ⟨rfl, rfl, rfl⟩
    | some event =>
      obtain ⟨hl, -, hans, hagg⟩ := notify_of_answers (c := c.advanced k e) (e := event)
        fun call _ => h call
      exact ⟨hans, hl, hagg⟩
  | notify e =>
    obtain ⟨hl, -, hans, hagg⟩ := notify_of_answers (c := c) (e := e) fun call _ => h call
    exact ⟨hans, hl, hagg⟩
  | publish => exact ⟨rfl, rfl, rfl⟩
  | _ =>
    obtain ⟨hl, hagg, hans⟩ := hlookup rfl
    exact ⟨hans, hl, hagg⟩

/-! ### Listers and settings -/

theorem listers_notify (c : Controller) (e : Event) : (c.notify e).1.listers = c.listers := by
  obtain ⟨c', hl, -, -, hc | hc⟩ := notify_cases c e
  · rw [hc, receive_listers, hl]
  · rw [hc, ← hl]

theorem listers_act (c : Controller) (a : Action) :
    (c.act a).listers = match a with
      | .observe k e => c.listers.step k e
      | _ => c.listers := by
  cases a with
  | observe k e =>
    rw [act_observe]
    split
    · rfl
    · exact listers_notify _ _
  | notify e => exact listers_notify c e
  | _ => rfl

theorem settings_notify (c : Controller) (e : Event) :
    (c.notify e).1.settings = c.settings := by
  obtain ⟨c', -, -, hset, hc | hc⟩ := notify_cases c e
  · rw [hc, receive_settings, hset]
  · rw [hc, ← hset]

theorem settings_act (c : Controller) (a : Action) : (c.act a).settings = c.settings := by
  cases a with
  | observe k e =>
    rw [act_observe]
    split
    · rfl
    · exact settings_notify _ _
  | notify e => exact settings_notify c e
  | _ => rfl

theorem settings_run (c : Controller) (as : List Action) : (c.run as).settings = c.settings :=
  run_invariant (P := fun c' => c'.settings = c.settings) (Q := fun _ => True)
    (fun c' a _ h => (settings_act c' a).trans h) rfl fun _ _ => trivial

end Controller

end IngressCache
