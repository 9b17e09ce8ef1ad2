import IngressCache.Proofs.Material.Following
import IngressCache.Proofs.Runs
import Mathlib.Logic.Function.Basic

/-!
# Lookups and upkeep in steps

Any number of lookups of one secret, a change of its lister, and the call by which the store
follows that change, one small step at a time. Whoever renders the secret or brings its entry up
to date holds the lock of the key meanwhile, so that a lookup makes nothing stale: what it stores
it has rendered before, and where it stores there was no entry.
-/

namespace IngressCache

/-! ### Lookups and upkeep -/

/-- Where a lookup stands. It holds the lock of the key from `entered` to `leaving`. -/
inductive Lookup
  | idle
  | missed
  | entered
  | missedAgain
  | rendered (r : Rendering)
  | written (m : Material)
  | leaving (answer : Except Failure Material)
  | returned (answer : Except Failure Material)

namespace Lookup

def isInside : Lookup → Bool
  | .entered | .missedAgain | .rendered _ | .written _ | .leaving _ => true
  | .idle | .missed | .returned _ => false

/-- The material that the lookup is about to put into the store. -/
def carried? : Lookup → Option Material
  | .rendered r => some r.material
  | .written m => some m
  | _ => none

/-- True for a lookup that has not found the key under its lock. -/
def isFilling : Lookup → Bool
  | .missedAgain | .rendered _ | .written _ => true
  | _ => false

/-- The next step of a lookup, if it does not have to wait for the lock. -/
def step? (k : Key) (secrets : Lister Secret) (free : Bool) (st : CertStore) :
    Lookup → Option (CertStore × Lookup)
  | .idle =>
    match st.cached.get? k.text with
    | some m => some (st, .returned (.ok m))
    | none => some (st, .missed)
  | .missed => if free then some (st, .entered) else none
  | .entered =>
    match st.cached.get? k.text with
    | some m => some (st, .leaving (.ok m))
    | none => some (st, .missedAgain)
  | .missedAgain =>
    match CertStore.rendering secrets k with
    | .error f => some (st, .leaving (.error f))
    | .ok r => some (st, .rendered r)
  | .rendered r =>
    match st.writeRendering r with
    | (st, .ok m) => some (st, .written m)
    | (st, .error f) => some (st, .leaving (.error f))
  | .written m => some (st.remember k.text m, .leaving (.ok m))
  | .leaving answer => some (st, .returned answer)
  | .returned _ => none

end Lookup

/-- Where the upkeep of the store stands: the change is still to come, it was reported as a call,
and the call visits the keys that it found to visit, one after the other. -/
inductive Upkeep
  | ahead
  | reported (call : StoreCall)
  | visiting (call : StoreCall) (ts : List String)
  | holding (call : StoreCall) (t : String) (ts : List String)
  | leaving (call : StoreCall) (t : String) (ts : List String)
  | done
  deriving DecidableEq

/-- The upkeep is inside the lock of a key. -/
def Upkeep.holds (t : String) : Upkeep → Bool
  | .holding _ t' _ | .leaving _ t' _ => t' = t
  | _ => false

def Upkeep.remaining : Upkeep → List String
  | .visiting _ ts | .leaving _ _ ts => ts
  | .holding _ t ts => t :: ts
  | .ahead | .reported _ | .done => []

def Upkeep.isUnderWay : Upkeep → Bool
  | .visiting _ _ | .holding _ _ _ | .leaving _ _ _ | .done => true
  | .ahead | .reported _ => false

/-- The call that a step of the watch of secrets is reported as. -/
def Lister.storeCall? (secrets : Lister Secret) (e : WatchEvent Secret) : Option StoreCall :=
  match secrets.report e with
  | .change c => (Event.secret c).storeCall
  | .resync => Event.resync.storeCall
  | .nothing => none

theorem Lister.storeCall?_eq (secrets : Lister Secret) (e : WatchEvent Secret) (f : ClassFilter)
    (t : TrackedKeys) :
    secrets.storeCall? e = ((secrets.report e).event? f t .secret).bind Event.storeCall := by
  unfold storeCall?
  cases secrets.report e <;> rfl

namespace CertStore

def plan (st : CertStore) : StoreCall → List String
  | .update t | .delete t => [t]
  | .resync => st.cached.keys

def visit (secrets : Lister Secret) (st : CertStore) : StoreCall → String → CertStore
  | .update _, t => (st.refresh secrets t).1
  | .delete _, t => (st.evict t).1
  | .resync, t => (st.reconcile secrets t).1

/-- The material is what the rendering of the secret says now. -/
def Current (secrets : Lister Secret) (k : Key) (m : Material) : Prop :=
  ∃ r, rendering secrets k = .ok r ∧ m = r.material

theorem currentAt_text_iff {secrets : Lister Secret} {st : CertStore} {k : Key} (hk : k.Legible) :
    st.CurrentAt secrets k.text ↔ ∀ m, st.cached.get? k.text = some m → Current secrets k m := by
  unfold CurrentAt Current
  rw [renderingOf_text secrets hk]

theorem current_iff {secrets : Lister Secret} {k : Key} {m : Material} :
    Current secrets k m ↔ (rendering secrets k).toOption.map Rendering.material = some m := by
  unfold Current
  cases rendering secrets k with
  | error f => simp [Except.toOption]
  | ok r => simp [Except.toOption, eq_comm]

instance (secrets : Lister Secret) (k : Key) (m : Material) : Decidable (Current secrets k m) :=
  decidable_of_iff' _ current_iff

theorem visit_cached_of_ne (secrets : Lister Secret) (st : CertStore) (call : StoreCall)
    {t t' : String} (h : t' ≠ t) :
    (st.visit secrets call t).cached.get? t' = st.cached.get? t' := by
  cases call with
  | update _ => exact refresh_cached_of_ne secrets st h
  | delete _ => exact (evict_cached st t t').trans (if_neg h)
  | resync => exact reconcile_cached_of_ne secrets st h

theorem visit_currentAt (secrets : Lister Secret) (st : CertStore) (call : StoreCall) (t : String) :
    (st.visit secrets call t).CurrentAt secrets t := by
  cases call with
  | update _ => exact refresh_currentAt secrets st t
  | delete _ => exact currentAt_of_none (by rw [visit, evict_cached, if_pos rfl])
  | resync => exact reconcile_currentAt secrets st t

theorem visit_accepts (secrets : Lister Secret) {st : CertStore} {f : String}
    (h : st.directory.Accepts f) (call : StoreCall) (t : String) :
    (st.visit secrets call t).directory.Accepts f := by
  cases call with
  | update _ => exact refresh_accepts secrets h t
  | delete _ => exact evict_accepts h t
  | resync => exact reconcile_accepts secrets h t

end CertStore

/-! ### Interleavings -/

inductive Actor (ι : Type)
  | lookup (i : ι)
  | upkeep
  deriving DecidableEq

structure InFlight (ι : Type) where
  secrets : Lister Secret
  store : CertStore
  /-- Who holds the lock of the key. -/
  lock : Option (Actor ι)
  lookup : ι → Lookup
  upkeep : Upkeep

namespace InFlight

variable {ι : Type}

def start (secrets : Lister Secret) (store : CertStore) : InFlight ι :=
  ⟨secrets, store, none, fun _ => .idle, .ahead⟩

/-- The next step of the upkeep. Locks of other keys are always free. -/
def tend? (k : Key) (e : WatchEvent Secret) (s : InFlight ι) : Option (InFlight ι) :=
  match s.upkeep with
  | .ahead =>
    match s.secrets.storeCall? e with
    | none => some { s with secrets := s.secrets.step e, upkeep := .done }
    | some call => some { s with secrets := s.secrets.step e, upkeep := .reported call }
  | .reported call => some { s with upkeep := .visiting call (s.store.plan call) }
  | .visiting _ [] => some { s with upkeep := .done }
  | .visiting call (t :: ts) =>
    if t = k.text then
      match s.lock with
      | none => some { s with lock := some .upkeep, upkeep := .holding call t ts }
      | some _ => none
    else some { s with upkeep := .holding call t ts }
  | .holding call t ts =>
    some { s with store := s.store.visit s.secrets call t, upkeep := .leaving call t ts }
  | .leaving call t ts =>
    some { s with lock := if t = k.text then none else s.lock, upkeep := .visiting call ts }
  | .done => none

section
variable [DecidableEq ι]

/-- The state when a lookup has come to `l`: it has taken the lock, or given it back. -/
def advance (s : InFlight ι) (i : ι) (st : CertStore) (l : Lookup) : InFlight ι :=
  { s with
    store := st
    lock := if l.isInside then some (.lookup i) else if (s.lookup i).isInside then none else s.lock
    lookup := Function.update s.lookup i l }

def step? (k : Key) (e : WatchEvent Secret) (s : InFlight ι) : Actor ι → Option (InFlight ι)
  | .lookup i =>
    ((s.lookup i).step? k s.secrets s.lock.isNone s.store).map fun (st, l) => s.advance i st l
  | .upkeep => s.tend? k e

def run? (k : Key) (e : WatchEvent Secret) (s : InFlight ι) (as : List (Actor ι)) :
    Option (InFlight ι) :=
  as.foldlM (step? k e) s

end

/-! ### What is right -/

/-- All that there is of the secret, in the store and on the way into it, is what its rendering
says now. -/
structure Clean (k : Key) (s : InFlight ι) : Prop where
  cached : ∀ m, s.store.cached.get? k.text = some m → CertStore.Current s.secrets k m
  carried : ∀ i m, (s.lookup i).carried? = some m → CertStore.Current s.secrets k m

/-- The call is about to begin, and it will not visit the key although something is stale. -/
def Misses (k : Key) (call : StoreCall) (s : InFlight ι) : Prop :=
  k.text ∉ s.store.plan call ∧ ¬s.Clean k

/-- The lock is held by whoever is inside, a lookup that fills the entry finds it empty, and the
files of the secret can be written. -/
structure Orderly (k : Key) (s : InFlight ι) : Prop where
  inside : ∀ i, (s.lookup i).isInside = true → s.lock = some (.lookup i)
  filling : ∀ i, (s.lookup i).isFilling = true → s.store.cached.get? k.text = none
  rendered : ∀ i r, s.lookup i = .rendered r → r.Of k
  tending : s.upkeep.holds k.text = true → s.lock = some .upkeep
  accepts : ∀ f ∈ k.files, s.store.directory.Accepts f

/-! ### Steps of a lookup -/

end InFlight

namespace Lookup
open CertStore

variable {k : Key} {secrets : Lister Secret} {free : Bool} {st st' : CertStore} {l l' : Lookup}

inductive Stepped (k : Key) (secrets : Lister Secret) (free : Bool) (st : CertStore) :
    Lookup → CertStore → Lookup → Prop
  | found (m : Material) (hm : st.cached.get? k.text = some m) :
      Stepped k secrets free st .idle st (.returned (.ok m))
  | missed (hm : st.cached.get? k.text = none) : Stepped k secrets free st .idle st .missed
  | entered (hfree : free = true) : Stepped k secrets free st .missed st .entered
  | foundInside (m : Material) (hm : st.cached.get? k.text = some m) :
      Stepped k secrets free st .entered st (.leaving (.ok m))
  | missedAgain (hm : st.cached.get? k.text = none) :
      Stepped k secrets free st .entered st .missedAgain
  | unrendered (f : Failure) (hr : rendering secrets k = .error f) :
      Stepped k secrets free st .missedAgain st (.leaving (.error f))
  | rendered (r : Rendering) (hr : rendering secrets k = .ok r) :
      Stepped k secrets free st .missedAgain st (.rendered r)
  | written (r : Rendering) (hw : (writeParts st.directory r.parts).2 = none) :
      Stepped k secrets free st (.rendered r) ⟨(writeParts st.directory r.parts).1, st.cached⟩
        (.written r.material)
  | unwritten (r : Rendering) (f : IoFault) (hw : (writeParts st.directory r.parts).2 = some f) :
      Stepped k secrets free st (.rendered r) ⟨(writeParts st.directory r.parts).1, st.cached⟩
        (.leaving (.error (.io f)))
  | stored (m : Material) :
      Stepped k secrets free st (.written m) (st.remember k.text m) (.leaving (.ok m))
  | left (answer : Except Failure Material) :
      Stepped k secrets free st (.leaving answer) st (.returned answer)

theorem stepped (h : l.step? k secrets free st = some (st', l')) :
    Stepped k secrets free st l st' l' := by
  cases l with
  | idle =>
    simp only [step?] at h
    cases hm : st.cached.get? k.text with
    | some m =>
      rw [hm] at h
      cases h
      exact .found m hm
    | none =>
      rw [hm] at h
      cases h
      exact .missed hm
  | missed =>
    obtain ⟨hfree, h⟩ := Option.ite_none_right_eq_some.1 h
    cases h
    exact .entered hfree
  | entered =>
    simp only [step?] at h
    cases hm : st.cached.get? k.text with
    | some m =>
      rw [hm] at h
      cases h
      exact .foundInside m hm
    | none =>
      rw [hm] at h
      cases h
      exact .missedAgain hm
  | missedAgain =>
    simp only [step?] at h
    cases hr : rendering secrets k with
    | error f =>
      rw [hr] at h
      cases h
      exact .unrendered f hr
    | ok r =>
      rw [hr] at h
      cases h
      exact .rendered r hr
  | rendered r =>
    simp only [step?] at h
    cases hw : (writeParts st.directory r.parts).2 with
    | none =>
      rw [writeRendering_of_none hw] at h
      cases h
      exact .written r hw
    | some f =>
      rw [writeRendering_of_some hw] at h
      cases h
      exact .unwritten r f hw
  | written m =>
    cases h
    exact .stored m
  | leaving answer =>
    cases h
    exact .left answer
  | returned answer => cases h

theorem Stepped.free_of_enters (h : Stepped k secrets free st l st' l')
    (hl' : l'.isInside = true) : l.isInside = true ∨ free = true := by
  cases h with
  | entered hfree => exact .inr hfree
  | found m hm => cases hl'
  | missed hm => cases hl'
  | left answer => cases hl'
  | _ => exact .inl rfl

theorem Stepped.accepts (h : Stepped k secrets free st l st' l') {f : String}
    (hf : st.directory.Accepts f) : st'.directory.Accepts f := by
  cases h with
  | written r hw => exact writeParts_accepts hf _
  | unwritten r g hw => exact writeParts_accepts hf _
  | _ => exact hf

/-- The entry changes only where a lookup inside stores what it has written. -/
theorem Stepped.cached (h : Stepped k secrets free st l st' l') :
    st'.cached.get? k.text = st.cached.get? k.text ∨
      ∃ m, l = .written m ∧ l' = .leaving (.ok m) ∧ st'.cached.get? k.text = some m := by
  cases h with
  | stored m => exact .inr ⟨m, rfl, rfl, Table.get?_insert_self _ _ _⟩
  | _ => exact .inl rfl

theorem Stepped.filling (h : Stepped k secrets free st l st' l')
    (hl : l.isFilling = true → st.cached.get? k.text = none) (hl' : l'.isFilling = true) :
    st'.cached.get? k.text = none := by
  cases h with
  | missedAgain hm => exact hm
  | rendered r hr => exact hl rfl
  | written r hw => exact hl rfl
  | _ => cases hl'

/-- What a lookup carries it has carried before, or it has rendered it now. -/
theorem Stepped.current_of_carried (h : Stepped k secrets free st l st' l')
    (hl : ∀ m, l.carried? = some m → Current secrets k m) {m : Material}
    (hm : l'.carried? = some m) : Current secrets k m := by
  cases h with
  | rendered r hr =>
    obtain rfl := Option.some.inj hm
    exact ⟨r, hr, rfl⟩
  | written r hw => exact hl m hm
  | _ => cases hm

/-- What a lookup carries comes into the store: its files can be written. -/
theorem Stepped.carried_or_stored (h : Stepped k secrets free st l st' l')
    (hd : ∀ f ∈ k.files, st.directory.Accepts f) (hl : ∀ r, l = .rendered r → r.Of k)
    {m : Material} (hm : l.carried? = some m) :
    l'.carried? = some m ∨ st'.cached.get? k.text = some m := by
  cases h with
  | written r hw => exact .inl hm
  | unwritten r f hw =>
    have hof := hl r rfl
    have hok := (writeParts_of_accepts (fun p hp => hd _ (hof.mem_files hp)) hof.files_nodup).1
    cases hok.symm.trans hw
  | stored m' =>
    obtain rfl := Option.some.inj hm
    exact .inr (Table.get?_insert_self _ _ _)
  | _ => cases hm

end Lookup

namespace InFlight
open CertStore Lookup

variable {ι : Type} {k : Key} {e : WatchEvent Secret} {s s' : InFlight ι}

section
variable [DecidableEq ι] {i : ι} {st : CertStore} {l : Lookup}

theorem lookup_advance_self (s : InFlight ι) (i : ι) (st : CertStore) (l : Lookup) :
    (s.advance i st l).lookup i = l :=
  Function.update_self _ _ _

theorem lookup_advance_of_ne (s : InFlight ι) {i j : ι} (h : j ≠ i) (st : CertStore)
    (l : Lookup) : (s.advance i st l).lookup j = s.lookup j :=
  Function.update_of_ne h _ _

/-- A lookup leaves the lock alone while somebody else holds it. -/
theorem Orderly.lock_advance (h : s.Orderly k)
    (hstep : Stepped k s.secrets s.lock.isNone s.store (s.lookup i) st l) {a : Actor ι}
    (ha : a ≠ .lookup i) (hlock : s.lock = some a) : (s.advance i st l).lock = some a := by
  have hout : ¬(s.lookup i).isInside = true := by
    intro hin
    exact ha (Option.some.inj (hlock.symm.trans (h.inside i hin)))
  have hstay : ¬l.isInside = true := by
    intro hin
    rcases hstep.free_of_enters hin with hin | hfree
    · exact hout hin
    · rw [hlock] at hfree
      cases hfree
  show (if l.isInside then some (.lookup i) else
    if (s.lookup i).isInside then none else s.lock) = some a
  rw [if_neg hstay, if_neg hout]
  exact hlock

theorem isInside_of_isFilling {l : Lookup} (h : l.isFilling = true) : l.isInside = true := by
  cases l <;> first | rfl | cases h

theorem isFilling_of_carried? {l : Lookup} {m : Material} (h : l.carried? = some m) :
    l.isFilling = true := by
  cases l <;> first | rfl | cases h

theorem Orderly.advance (h : s.Orderly k)
    (hstep : Stepped k s.secrets s.lock.isNone s.store (s.lookup i) st l) :
    (s.advance i st l).Orderly k where
  inside j hj := by
    by_cases hji : j = i
    · subst hji
      rw [lookup_advance_self] at hj
      exact if_pos hj
    · rw [lookup_advance_of_ne s hji] at hj
      exact h.lock_advance hstep (fun ha => hji (Actor.lookup.inj ha)) (h.inside j hj)
  filling j hj := by
    by_cases hji : j = i
    · subst hji
      rw [lookup_advance_self] at hj
      exact hstep.filling (h.filling j) hj
    · rw [lookup_advance_of_ne s hji] at hj
      rcases hstep.cached with hsame | ⟨m, hl, -⟩
      · exact hsame.trans (h.filling j hj)
      · have hi := h.inside i (by rw [hl]; rfl)
        have hj' := h.inside j (isInside_of_isFilling hj)
        exact absurd (Actor.lookup.inj (Option.some.inj (hj'.symm.trans hi))) hji
  rendered j r hr := by
    by_cases hji : j = i
    · subst hji
      rw [lookup_advance_self] at hr
      subst hr
      generalize s.lookup j = l' at hstep
      cases hstep with
      | rendered r hr => exact rendering_of hr
    · rw [lookup_advance_of_ne s hji] at hr
      exact h.rendered j r hr
  tending ht := h.lock_advance hstep (fun ha => nomatch ha) (h.tending ht)
  accepts f hf := hstep.accepts (h.accepts f hf)

/-- A lookup makes nothing stale, and nothing that is stale goes away with it. -/
theorem clean_advance_iff (h : s.Orderly k)
    (hstep : Stepped k s.secrets s.lock.isNone s.store (s.lookup i) st l) :
    (s.advance i st l).Clean k ↔ s.Clean k := by
  constructor
  · intro hc
    refine ⟨fun m hm => ?_, fun j m hm => ?_⟩
    · rcases hstep.cached with hsame | ⟨m', hl, -⟩
      · exact hc.cached m (hsame.trans hm)
      · have hnone := h.filling i (by rw [hl]; rfl)
        rw [hnone] at hm
        cases hm
    · by_cases hji : j = i
      · subst hji
        rcases hstep.carried_or_stored h.accepts (h.rendered j) hm with hcarried | hstored
        · refine hc.carried j m ?_
          rw [lookup_advance_self]
          exact hcarried
        · exact hc.cached m hstored
      · refine hc.carried j m ?_
        rw [lookup_advance_of_ne s hji]
        exact hm
  · intro hc
    refine ⟨fun m hm => ?_, fun j m hm => ?_⟩
    · rcases hstep.cached with hsame | ⟨m', hl, -, hstored⟩
      · exact hc.cached m (hsame.symm.trans hm)
      · obtain rfl := Option.some.inj (hstored.symm.trans hm)
        exact hc.carried i m' (by rw [hl]; rfl)
    · by_cases hji : j = i
      · subst hji
        rw [lookup_advance_self] at hm
        exact hstep.current_of_carried (hc.carried j) hm
      · rw [lookup_advance_of_ne s hji] at hm
        exact hc.carried j m hm

end

/-! ### Steps of the upkeep -/

/-- Nobody who is inside shares the lock with the upkeep. -/
theorem Orderly.outside (h : s.Orderly k) (hlock : s.lock = some .upkeep ∨ s.lock = none) (i : ι) :
    (s.lookup i).isInside = false := by
  refine Bool.eq_false_iff.2 fun hin => ?_
  have hi := h.inside i hin
  rcases hlock with hlock | hlock <;> rw [hlock] at hi <;> cases hi

theorem Orderly.with_upkeep (h : s.Orderly k) {secrets : Lister Secret} {u : Upkeep}
    (hu : u.holds k.text = false) :
    Orderly k { s with secrets := secrets, upkeep := u } where
  inside := h.inside
  filling := h.filling
  rendered := h.rendered
  tending ht := by
    rw [hu] at ht
    cases ht
  accepts := h.accepts

inductive Tended (k : Key) (e : WatchEvent Secret) (s : InFlight ι) : InFlight ι → Prop
  | silent (hu : s.upkeep = .ahead) (hcall : s.secrets.storeCall? e = none) :
      Tended k e s { s with secrets := s.secrets.step e, upkeep := .done }
  | reported (call : StoreCall) (hu : s.upkeep = .ahead)
      (hcall : s.secrets.storeCall? e = some call) :
      Tended k e s { s with secrets := s.secrets.step e, upkeep := .reported call }
  | begun (call : StoreCall) (hu : s.upkeep = .reported call) :
      Tended k e s { s with upkeep := .visiting call (s.store.plan call) }
  | finished (call : StoreCall) (hu : s.upkeep = .visiting call []) :
      Tended k e s { s with upkeep := .done }
  | locked (call : StoreCall) (t : String) (ts : List String)
      (hu : s.upkeep = .visiting call (t :: ts)) (ht : t = k.text) (hlock : s.lock = none) :
      Tended k e s { s with lock := some .upkeep, upkeep := .holding call t ts }
  | passed (call : StoreCall) (t : String) (ts : List String)
      (hu : s.upkeep = .visiting call (t :: ts)) (ht : t ≠ k.text) :
      Tended k e s { s with upkeep := .holding call t ts }
  | visited (call : StoreCall) (t : String) (ts : List String)
      (hu : s.upkeep = .holding call t ts) :
      Tended k e s { s with store := s.store.visit s.secrets call t, upkeep := .leaving call t ts }
  | released (call : StoreCall) (t : String) (ts : List String)
      (hu : s.upkeep = .leaving call t ts) :
      Tended k e s
        { s with lock := if t = k.text then none else s.lock, upkeep := .visiting call ts }

theorem tended (hs : s.tend? k e = some s') : Tended k e s s' := by
  unfold tend? at hs
  cases hu : s.upkeep with
  | ahead =>
    simp only [hu] at hs
    cases hcall : s.secrets.storeCall? e with
    | none =>
      rw [hcall] at hs
      cases hs
      exact .silent hu hcall
    | some call =>
      rw [hcall] at hs
      cases hs
      exact .reported call hu hcall
  | reported call =>
    simp only [hu] at hs
    cases hs
    exact .begun call hu
  | visiting call ts =>
    cases ts with
    | nil =>
      simp only [hu] at hs
      cases hs
      exact .finished call hu
    | cons t ts =>
      simp only [hu] at hs
      by_cases ht : t = k.text
      · rw [if_pos ht] at hs
        cases hlock : s.lock with
        | none =>
          rw [hlock] at hs
          cases hs
          exact .locked call t ts hu ht hlock
        | some a =>
          rw [hlock] at hs
          cases hs
      · rw [if_neg ht] at hs
        cases hs
        exact .passed call t ts hu ht
  | holding call t ts =>
    simp only [hu] at hs
    cases hs
    exact .visited call t ts hu
  | leaving call t ts =>
    simp only [hu] at hs
    cases hs
    exact .released call t ts hu
  | done =>
    simp only [hu] at hs
    cases hs

theorem Orderly.lock_of_holding (h : s.Orderly k) {call : StoreCall} {t : String}
    {ts : List String} (hu : s.upkeep = .holding call t ts) (ht : t = k.text) :
    s.lock = some .upkeep := by
  refine h.tending ?_
  rw [hu]
  exact decide_eq_true ht

theorem Orderly.tended (h : s.Orderly k) (hs : Tended k e s s') : s'.Orderly k := by
  cases hs with
  | silent hu hcall => exact h.with_upkeep rfl
  | reported call hu hcall => exact h.with_upkeep rfl
  | begun call hu => exact h.with_upkeep rfl
  | finished call hu => exact h.with_upkeep rfl
  | passed call t ts hu ht => exact h.with_upkeep (decide_eq_false ht)
  | locked call t ts hu ht hlock =>
    refine ⟨fun i hi => ?_, h.filling, h.rendered, fun _ => rfl, h.accepts⟩
    have hout := h.outside (.inr hlock) i
    rw [hout] at hi
    cases hi
  | visited call t ts hu =>
    refine ⟨h.inside, fun i hi => ?_, h.rendered, fun ht => ?_, fun f hf => ?_⟩
    · by_cases ht : k.text = t
      · have hout := h.outside (.inl (h.lock_of_holding hu ht.symm)) i
        rw [isInside_of_isFilling hi] at hout
        cases hout
      · exact (visit_cached_of_ne s.secrets s.store call ht).trans (h.filling i hi)
    · exact h.lock_of_holding hu (of_decide_eq_true ht)
    · exact visit_accepts s.secrets (h.accepts f hf) call t
  | released call t ts hu =>
    refine ⟨fun i hi => ?_, h.filling, h.rendered, fun ht => ?_, h.accepts⟩
    · by_cases ht : t = k.text
      · have hlock : s.lock = some .upkeep := h.tending (by rw [hu]; exact decide_eq_true ht)
        rw [h.outside (.inl hlock) i] at hi
        cases hi
      · exact (if_neg ht).trans (h.inside i hi)
    · cases ht

end InFlight

end IngressCache
