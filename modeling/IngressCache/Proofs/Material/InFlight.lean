import IngressCache.Proofs.Material.Interleaving

/-!
# Lookups in flight

What a lookup has rendered before a change may still be on its way into the store after it. The
entry is right in the end exactly if the call for the change visits the key, or all that there is
of the secret when the call begins is right already. A call for the key itself visits it; one that
compares all entries with the lister misses a lookup that has yet to store.
-/

namespace IngressCache

namespace InFlight
open CertStore Lookup

variable {ι : Type} {k : Key} {e : WatchEvent Secret} {s s' : InFlight ι}

/-! ### Until the end -/

/-- Once the call has begun, all will be right in the end exactly if `c` holds: either the key is
still to be visited, or what there is of the secret stays as right as it is. -/
structure Settling (k : Key) (c : Prop) (s : InFlight ι) : Prop where
  orderly : s.Orderly k
  underWay : s.upkeep.isUnderWay = true
  visited : k.text ∈ s.upkeep.remaining → c
  settled : k.text ∉ s.upkeep.remaining → (s.Clean k ↔ c)

theorem clean_iff_of_cached {secrets : Lister Secret} {store store' : CertStore}
    {lookup : ι → Lookup} {lock lock' : Option (Actor ι)} {u u' : Upkeep}
    (h : store'.cached.get? k.text = store.cached.get? k.text) :
    Clean k ⟨secrets, store', lock', lookup, u'⟩ ↔ Clean k ⟨secrets, store, lock, lookup, u⟩ := by
  constructor
  · rintro ⟨hcached, hcarried⟩
    exact ⟨fun m hm => hcached m (h.trans hm), hcarried⟩
  · rintro ⟨hcached, hcarried⟩
    exact ⟨fun m hm => hcached m (h.symm.trans hm), hcarried⟩

theorem Settling.of_remaining_eq {c : Prop} (h : s.Settling k c) (ho : s'.Orderly k)
    (hu : s'.upkeep.isUnderWay = true) (hr : s'.upkeep.remaining = s.upkeep.remaining)
    (hc : s'.Clean k ↔ s.Clean k) : s'.Settling k c where
  orderly := ho
  underWay := hu
  visited hmem := h.visited (hr ▸ hmem)
  settled hnot := hc.trans (h.settled (hr ▸ hnot))

theorem Settling.tended {c : Prop} (h : s.Settling k c) (hk : k.Legible)
    (hs : Tended k e s s') : s'.Settling k c := by
  have horderly := h.orderly.tended hs
  have hunder := h.underWay
  cases hs with
  | silent hu hcall =>
    rw [hu] at hunder
    cases hunder
  | reported call hu hcall =>
    rw [hu] at hunder
    cases hunder
  | begun call hu =>
    rw [hu] at hunder
    cases hunder
  | finished call hu =>
    exact h.of_remaining_eq horderly rfl (by rw [hu]; rfl) (clean_iff_of_cached rfl)
  | locked call t ts hu ht hlock =>
    exact h.of_remaining_eq horderly rfl (by rw [hu]; rfl) (clean_iff_of_cached rfl)
  | passed call t ts hu ht =>
    exact h.of_remaining_eq horderly rfl (by rw [hu]; rfl) (clean_iff_of_cached rfl)
  | released call t ts hu =>
    exact h.of_remaining_eq horderly rfl (by rw [hu]; rfl) (clean_iff_of_cached rfl)
  | visited call t ts hu =>
    have hrest : s.upkeep.remaining = t :: ts := by rw [hu]; rfl
    refine ⟨horderly, rfl, fun hmem => h.visited (hrest ▸ List.mem_cons_of_mem t hmem),
      fun hnot => ?_⟩
    by_cases ht : t = k.text
    · -- The visit itself makes the entry right, and nobody else is inside meanwhile.
      have hc : c := h.visited (by rw [hrest, ht]; exact List.mem_cons_self)
      have hlock := h.orderly.lock_of_holding hu ht
      refine iff_of_true ⟨?_, fun i m hm => ?_⟩ hc
      · refine (currentAt_text_iff hk).1 ?_
        subst ht
        exact visit_currentAt s.secrets s.store call k.text
      · have hin := isInside_of_isFilling (isFilling_of_carried? hm)
        have hout := h.orderly.outside (.inl hlock) i
        rw [hout] at hin
        cases hin
    · have hnot' : k.text ∉ s.upkeep.remaining := by
        rw [hrest, List.mem_cons, not_or]
        exact ⟨fun he => ht he.symm, hnot⟩
      refine (clean_iff_of_cached ?_).trans (h.settled hnot')
      exact visit_cached_of_ne s.secrets s.store call fun he => ht he.symm

section
variable [DecidableEq ι]

theorem Orderly.step (h : s.Orderly k) {a : Actor ι} (hs : s.step? k e a = some s') :
    s'.Orderly k := by
  cases a with
  | lookup i =>
    obtain ⟨⟨st, l⟩, hl, rfl⟩ := Option.map_eq_some_iff.1 hs
    exact h.advance (stepped hl)
  | upkeep => exact h.tended (InFlight.tended hs)

theorem Settling.step {c : Prop} (h : s.Settling k c) (hk : k.Legible) {a : Actor ι}
    (hs : s.step? k e a = some s') : s'.Settling k c := by
  cases a with
  | lookup i =>
    obtain ⟨⟨st, l⟩, hl, rfl⟩ := Option.map_eq_some_iff.1 hs
    have hstep := stepped hl
    exact h.of_remaining_eq (h.orderly.advance hstep) h.underWay rfl
      (clean_advance_iff h.orderly hstep)
  | upkeep => exact h.tended hk (InFlight.tended hs)

end

/-! ### Calls that miss the key -/

/-- A call for the key itself never misses it. -/
theorem not_misses_update (s : InFlight ι) : ¬s.Misses k (.update k.text) :=
  fun h => h.1 (List.mem_singleton_self _)

theorem not_misses_delete (s : InFlight ι) : ¬s.Misses k (.delete k.text) :=
  fun h => h.1 (List.mem_singleton_self _)

/-- What misses the key when all entries are compared with the lister: a lookup that stores a stale
rendering where there was no entry. -/
theorem misses_resync_iff (s : InFlight ι) :
    s.Misses k .resync ↔ s.store.cached.get? k.text = none ∧
      ∃ i m, (s.lookup i).carried? = some m ∧ ¬Current s.secrets k m := by
  constructor
  · rintro ⟨hnot, hstale⟩
    have hnone : s.store.cached.get? k.text = none :=
      Option.eq_none_iff_forall_ne_some.2 fun m hm => hnot (Table.mem_keys.2 ⟨m, hm⟩)
    refine ⟨hnone, ?_⟩
    by_contra hfresh
    refine hstale ⟨fun m hm => ?_, fun i m hm => ?_⟩
    · rw [hnone] at hm
      cases hm
    · exact Decidable.not_not.1 fun hm' => hfresh ⟨i, m, hm, hm'⟩
  · rintro ⟨hnone, i, m, hm, hstale⟩
    refine ⟨fun hmem => ?_, fun hc => hstale (hc.carried i m hm)⟩
    obtain ⟨m', hm'⟩ := Table.mem_keys.1 hmem
    rw [hnone] at hm'
    cases hm'

/-! ### Runs to the end -/

/-- The upkeep is done, and all lookups that have begun have returned. -/
structure Quiet (s : InFlight ι) : Prop where
  upkeep : s.upkeep = .done
  lookup : ∀ i, s.lookup i = .idle ∨ ∃ answer, s.lookup i = .returned answer

/-- A run to the end: the change is reported as the call when the run has come to `s₁`, the call
begins there, and in `s₂` all are through. -/
structure Course [DecidableEq ι] (k : Key) (e : WatchEvent Secret) (secrets : Lister Secret)
    (store : CertStore) (call : StoreCall) (s₁ s₂ : InFlight ι) : Prop where
  before : ∃ as, (start secrets store).run? k e as = some s₁
  reported : s₁.upkeep = .reported call
  after : ∃ as, s₁.run? k e (.upkeep :: as) = some s₂
  quiet : s₂.Quiet

def housedKey : Key := ⟨"default", "ca"⟩

def bareKey : Key := ⟨"", "ca"⟩

def older (k : Key) : Secret := .ofAuthorities k [65] [66]

def newer (k : Key) : Secret := .ofAuthorities k [67] [68]

def listedOnce (k : Key) : Lister Secret :=
  Lister.empty.step (.apply (older k))

/-- The secret is being listed again, all but the end. -/
def listedAgain (k : Key) : Lister Secret :=
  ((listedOnce k).step .init).step (.initApply (newer k))

/-- A lookup has rendered the secret when the change comes. -/
def rendersBefore : List (Actor Unit) :=
  [.lookup (), .lookup (), .lookup (), .lookup (), .upkeep]

/-- A lookup is through when the change comes. -/
def returnsBefore : List (Actor Unit) :=
  List.replicate 7 (.lookup ()) ++ [.upkeep]

/-- The lookup stores what it has rendered and returns, and then the call visits the key. -/
def storesBetween : List (Actor Unit) :=
  [.lookup (), .lookup (), .lookup (), .upkeep, .upkeep, .upkeep, .upkeep]

/-- The call has nothing to visit, and then the lookup stores what it has rendered. -/
def storesAfter : List (Actor Unit) :=
  [.upkeep, .lookup (), .lookup (), .lookup ()]

def isQuiet (s : InFlight Unit) : Bool :=
  s.upkeep = .done && match s.lookup () with
    | .idle | .returned _ => true
    | _ => false

theorem quiet_of_isQuiet {s : InFlight Unit} (h : s.isQuiet = true) : s.Quiet := by
  obtain ⟨hu, hl⟩ := Bool.and_eq_true_iff.1 h
  refine ⟨of_decide_eq_true hu, fun _ => ?_⟩
  cases hi : s.lookup () with
  | idle => exact .inl rfl
  | returned answer => exact .inr ⟨answer, rfl⟩
  | _ =>
    rw [hi] at hl
    cases hl

theorem exists_course (k : Key) (e : WatchEvent Secret) (secrets : Lister Secret)
    (call : StoreCall) {p q : InFlight Unit → Bool} (before after : List (Actor Unit))
    (h : ((start secrets .empty).run? k e before).any (fun s₁ =>
      s₁.upkeep = .reported call && p s₁ && (s₁.run? k e (.upkeep :: after)).any fun s₂ =>
        s₂.isQuiet && q s₂) = true) :
    ∃ s₁ s₂, Course k e secrets .empty call s₁ s₂ ∧ p s₁ = true ∧ q s₂ = true := by
  obtain ⟨s₁, hbefore, h⟩ := (Option.any_eq_true _ _).1 h
  obtain ⟨h, hany⟩ := Bool.and_eq_true_iff.1 h
  obtain ⟨hreported, hp⟩ := Bool.and_eq_true_iff.1 h
  obtain ⟨s₂, hafter, hend⟩ := (Option.any_eq_true _ _).1 hany
  obtain ⟨hquiet, hq⟩ := Bool.and_eq_true_iff.1 hend
  exact ⟨s₁, s₂, ⟨⟨before, hbefore⟩, of_decide_eq_true hreported, ⟨after, hafter⟩,
    quiet_of_isQuiet hquiet⟩, hp, hq⟩

def carriesStale (k : Key) (s : InFlight Unit) : Bool :=
  (s.lookup ()).carried?.any fun m => ¬Current s.secrets k m

theorem not_clean_of_carriesStale {s : InFlight Unit} (h : s.carriesStale k = true) :
    ¬s.Clean k := by
  obtain ⟨m, hm, hstale⟩ := (Option.any_eq_true _ _).1 h
  exact fun hc => of_decide_eq_true hstale (hc.carried () m hm)

def cachesStale (k : Key) (s : InFlight Unit) : Bool :=
  (s.store.cached.get? k.text).any fun m => ¬Current s.secrets k m

theorem not_currentAt_of_cachesStale (hk : k.Legible) {s : InFlight Unit}
    (h : s.cachesStale k = true) : ¬s.store.CurrentAt s.secrets k.text := by
  obtain ⟨m, hm, hstale⟩ := (Option.any_eq_true _ _).1 h
  exact fun hc => of_decide_eq_true hstale ((currentAt_text_iff hk).1 hc m hm)

/-! ### Steps that nothing interrupts -/

section
variable [DecidableEq ι]

/-- Going on alone, the lookup ends with that store and that answer, and the lock is free. -/
def EndsWith (k : Key) (e : WatchEvent Secret) (s : InFlight ι) (i : ι)
    (x : CertStore × Except Failure Material) : Prop :=
  ∃ n s', s.run? k e (List.replicate n (.lookup i)) = some s' ∧ s'.store = x.1 ∧
    s'.lookup i = .returned x.2 ∧ s'.lock = none

theorem EndsWith.of_step {i : ι} {st : CertStore} {l : Lookup}
    {x : CertStore × Except Failure Material}
    (hl : (s.lookup i).step? k s.secrets s.lock.isNone s.store = some (st, l))
    (h : (s.advance i st l).EndsWith k e i x) : s.EndsWith k e i x := by
  obtain ⟨n, s', hrun, hend⟩ := h
  refine ⟨n + 1, s', ?_, hend⟩
  have hstep : s.step? k e (.lookup i) = some (s.advance i st l) := by
    rw [step?, hl]
    rfl
  rw [run?, List.replicate_succ, foldlM_cons_of_some hstep]
  exact hrun

theorem endsWith_returned {i : ι} {answer : Except Failure Material}
    (hi : s.lookup i = .returned answer) (hlock : s.lock = none) :
    s.EndsWith k e i (s.store, answer) :=
  ⟨0, s, rfl, rfl, hi, hlock⟩

theorem endsWith_leaving {i : ι} {answer : Except Failure Material}
    (hi : s.lookup i = .leaving answer) : s.EndsWith k e i (s.store, answer) := by
  have hstep : (s.lookup i).step? k s.secrets s.lock.isNone s.store =
      some (s.store, .returned answer) := by
    rw [hi]
    rfl
  refine .of_step hstep (endsWith_returned (lookup_advance_self s i _ _) ?_)
  show (if (s.lookup i).isInside then none else s.lock) = none
  rw [hi]
  rfl

theorem endsWith_rendered {i : ι} {r : Rendering} (hi : s.lookup i = .rendered r) :
    s.EndsWith k e i (match s.store.writeRendering r with
      | (st, .ok m) => (st.remember k.text m, .ok m)
      | (st, .error f) => (st, .error f)) := by
  have hstep : (s.lookup i).step? k s.secrets s.lock.isNone s.store =
      match s.store.writeRendering r with
      | (st, .ok m) => some (st, .written m)
      | (st, .error f) => some (st, .leaving (.error f)) := by
    rw [hi]
    rfl
  rcases hw : s.store.writeRendering r with ⟨st, f | m⟩
  · rw [hw] at hstep
    exact .of_step hstep (endsWith_leaving (lookup_advance_self s i _ _))
  · rw [hw] at hstep
    have hremember : ((s.advance i st (.written m)).lookup i).step? k s.secrets
        (s.advance i st (.written m)).lock.isNone st =
        some (st.remember k.text m, .leaving (.ok m)) := by
      rw [lookup_advance_self]
      rfl
    exact .of_step hstep (.of_step hremember (endsWith_leaving (lookup_advance_self _ i _ _)))

theorem endsWith_missedAgain {i : ι} (hi : s.lookup i = .missedAgain)
    (hm : s.store.cached.get? k.text = none) :
    s.EndsWith k e i (certificate s.secrets s.store k) := by
  unfold certificate
  rw [hm]
  cases hr : rendering s.secrets k with
  | error f =>
    have hstep : (s.lookup i).step? k s.secrets s.lock.isNone s.store =
        some (s.store, .leaving (.error f)) := by
      rw [hi, Lookup.step?, hr]
    exact .of_step hstep (endsWith_leaving (lookup_advance_self s i _ _))
  | ok r =>
    have hstep : (s.lookup i).step? k s.secrets s.lock.isNone s.store =
        some (s.store, .rendered r) := by
      rw [hi, Lookup.step?, hr]
    exact .of_step hstep (endsWith_rendered (lookup_advance_self s i _ _))

/-- A lookup that nothing interrupts is a question for the material. -/
theorem endsWith_certificate {i : ι} (hi : s.lookup i = .idle) (hlock : s.lock = none) :
    s.EndsWith k e i (certificate s.secrets s.store k) := by
  have hfree : ∀ l : Lookup, l.isInside = false → (s.advance i s.store l).lock = none := by
    intro l hl
    show (if l.isInside then some (.lookup i) else
      if (s.lookup i).isInside then none else s.lock) = none
    rw [hl, hi]
    exact hlock
  cases hm : s.store.cached.get? k.text with
  | some m =>
    have hstep : (s.lookup i).step? k s.secrets s.lock.isNone s.store =
        some (s.store, .returned (.ok m)) := by
      rw [hi, Lookup.step?, hm]
    unfold certificate
    rw [hm]
    exact .of_step hstep (endsWith_returned (lookup_advance_self s i _ _) (hfree _ rfl))
  | none =>
    have hstep : (s.lookup i).step? k s.secrets s.lock.isNone s.store =
        some (s.store, .missed) := by
      rw [hi, Lookup.step?, hm]
    have henter : ((s.advance i s.store .missed).lookup i).step? k s.secrets
        (s.advance i s.store .missed).lock.isNone s.store = some (s.store, .entered) := by
      rw [lookup_advance_self, hfree _ rfl]
      rfl
    have hmiss : (Lookup.entered).step? k s.secrets false s.store =
        some (s.store, .missedAgain) := by
      rw [Lookup.step?, hm]
    refine .of_step hstep (.of_step henter (.of_step ?_
      (endsWith_missedAgain (lookup_advance_self _ i _ _) hm)))
    rw [lookup_advance_self]
    exact hmiss

theorem run?_cons_upkeep (hs : s.tend? k e = some s') (n : Nat) :
    s.run? k e (List.replicate (n + 1) .upkeep) = s'.run? k e (List.replicate n .upkeep) :=
  foldlM_cons_of_some hs _

theorem run?_visiting {call : StoreCall} {ts : List String}
    (hu : s.upkeep = .visiting call ts) (hlock : s.lock = none) :
    ∃ n s', s.run? k e (List.replicate n .upkeep) = some s' ∧ s'.upkeep = .done ∧
      s'.store = ts.foldl (fun st t => st.visit s.secrets call t) s.store := by
  induction ts generalizing s with
  | nil =>
    have hs : s.tend? k e = some { s with upkeep := .done } := by
      rw [tend?, hu]
    exact ⟨1, _, run?_cons_upkeep hs 0, rfl, rfl⟩
  | cons t ts ih =>
    have hhold : s.tend? k e = some { s with
        lock := if t = k.text then some .upkeep else none, upkeep := .holding call t ts } := by
      by_cases ht : t = k.text
      · simp only [tend?, hu, hlock, ht, if_true]
      · simp only [tend?, hu, hlock, ht, if_false]
    obtain ⟨n, s', hrun, hend⟩ := ih (s := { s with
      store := s.store.visit s.secrets call t, lock := none, upkeep := .visiting call ts }) rfl rfl
    refine ⟨n + 3, s', ?_, hend⟩
    rw [run?_cons_upkeep hhold, run?_cons_upkeep rfl, run?_cons_upkeep rfl, ← hrun]
    by_cases ht : t = k.text <;> simp only [ht, if_true, if_false]

theorem follow_eq_foldl (secrets : Lister Secret) (st : CertStore) (call : StoreCall) :
    (st.follow secrets call).1 =
      (st.plan call).foldl (fun st t => st.visit secrets call t) st := by
  cases call with
  | update t => rfl
  | delete t => rfl
  | resync =>
    have hall : ∀ (ts : List String) (st : CertStore), (st.reconcileAll secrets ts).1 =
        ts.foldl (fun st t => st.visit secrets .resync t) st := by
      intro ts
      induction ts with
      | nil => exact fun _ => rfl
      | cons t ts ih =>
        intro st
        rw [reconcileAll_cons, ih]
        rfl
    exact hall _ st

/-- Going on alone, the upkeep ends with the store that has followed the lister with the call. -/
def CarriesOut (k : Key) (e : WatchEvent Secret) (s : InFlight ι) (call : StoreCall) : Prop :=
  ∃ n s', s.run? k e (List.replicate n .upkeep) = some s' ∧ s'.upkeep = .done ∧
    s'.store = (s.store.follow s.secrets call).1

theorem carriesOut_of_reported {call : StoreCall} (hu : s.upkeep = .reported call)
    (hlock : s.lock = none) : s.CarriesOut k e call := by
  have hbegin : s.tend? k e = some { s with upkeep := .visiting call (s.store.plan call) } := by
    rw [tend?, hu]
  obtain ⟨n, s', hrun, hdone, hstore⟩ := run?_visiting (k := k) (e := e)
    (s := { s with upkeep := .visiting call (s.store.plan call) }) rfl hlock
  refine ⟨n + 1, s', (run?_cons_upkeep hbegin n).trans hrun, hdone, ?_⟩
  rw [hstore, follow_eq_foldl]

end

/-! ### The call for the change -/

/-- The lister as it was until the change, and the call as the one that the change is reported
as. -/
structure Heard (secrets : Lister Secret) (e : WatchEvent Secret) (s : InFlight ι) : Prop where
  ahead : s.upkeep = .ahead → s.secrets = secrets
  reported : ∀ call, s.upkeep = .reported call →
    s.secrets = secrets.step e ∧ secrets.storeCall? e = some call

theorem Heard.tended {secrets : Lister Secret} (h : s.Heard secrets e) (hs : Tended k e s s') :
    s'.Heard secrets e := by
  cases hs with
  | silent hu hcall => exact ⟨nofun, nofun⟩
  | reported call hu hcall =>
    refine ⟨nofun, fun call' hcall' => ?_⟩
    obtain rfl := Upkeep.reported.inj hcall'
    obtain rfl := h.ahead hu
    exact ⟨rfl, hcall⟩
  | _ => exact ⟨nofun, nofun⟩

theorem Heard.step [DecidableEq ι] {secrets : Lister Secret} (h : s.Heard secrets e)
    {a : Actor ι} (hs : s.step? k e a = some s') : s'.Heard secrets e := by
  cases a with
  | lookup i =>
    obtain ⟨⟨st, l⟩, -, rfl⟩ := Option.map_eq_some_iff.1 hs
    exact ⟨h.ahead, h.reported⟩
  | upkeep => exact h.tended (InFlight.tended hs)

/-! ### The entry in the end -/

theorem orderly_start (secrets : Lister Secret) {store : CertStore}
    (hfiles : ∀ f ∈ k.files, store.directory.Accepts f) :
    (start secrets store : InFlight ι).Orderly k where
  inside _ hi := nomatch hi
  filling _ hi := nomatch hi
  rendered _ _ hr := nomatch hr
  tending ht := nomatch ht
  accepts := hfiles

theorem Quiet.clean_iff (h : s.Quiet) (hk : k.Legible) :
    s.Clean k ↔ s.store.CurrentAt s.secrets k.text := by
  rw [currentAt_text_iff hk]
  refine ⟨fun hc => hc.cached, fun hc => ⟨hc, fun i m hm => ?_⟩⟩
  rcases h.lookup i with hi | ⟨answer, hi⟩ <;> rw [hi] at hm <;> cases hm

theorem currentAt_iff [DecidableEq ι] (hk : k.Legible) {secrets : Lister Secret}
    {store : CertStore} (hfiles : ∀ f ∈ k.files, store.directory.Accepts f) {call : StoreCall}
    {s₁ s₂ : InFlight ι} (h : Course k e secrets store call s₁ s₂) :
    s₂.store.CurrentAt s₂.secrets k.text ↔ ¬s₁.Misses k call := by
  obtain ⟨before, hbefore⟩ := h.before
  obtain ⟨after, hafter⟩ := h.after
  have horderly : s₁.Orderly k :=
    foldlM_preserves (fun _ _ _ hs h => Orderly.step h hs) hbefore (orderly_start secrets hfiles)
  obtain ⟨s, hs, hafter⟩ := foldlM_cons_eq_some hafter
  have hbegun : s = { s₁ with upkeep := .visiting call (s₁.store.plan call) } := by
    have hstep : s₁.tend? k e = some s := hs
    rw [tend?, h.reported] at hstep
    exact (Option.some.inj hstep).symm
  have hsettling : s.Settling k (¬s₁.Misses k call) := by
    subst hbegun
    refine ⟨horderly.with_upkeep rfl, rfl, fun hmem hmiss => hmiss.1 hmem, fun hnot => ?_⟩
    have hclean : Clean k { s₁ with upkeep := .visiting call (s₁.store.plan call) } ↔ s₁.Clean k :=
      clean_iff_of_cached rfl
    rw [Misses, not_and_not_right]
    exact ⟨fun hc _ => hclean.1 hc, fun hc => hclean.2 (hc hnot)⟩
  have hend : s₂.Settling k (¬s₁.Misses k call) :=
    foldlM_preserves (fun _ _ _ hs h => Settling.step h hk hs) hafter hsettling
  have hnone : k.text ∉ s₂.upkeep.remaining := by
    rw [h.quiet.upkeep]
    exact List.not_mem_nil
  rw [← h.quiet.clean_iff hk]
  exact hend.settled hnone

/-- Let a change be reported as a call while any number of lookups are under way. When all of them
are through, the entry of the key is gone or says what the rendering says now, unless the call
began without the key among those to visit, at a moment when the entry or what a lookup was about
to store was stale. A call for the key itself never misses it, and one that compares all entries
misses it for a lookup about to store something stale where there is no entry. The call is the one
that the change makes, and steps that nothing interrupts are the calls of the store. -/
theorem currentAt_iff_not_misses [DecidableEq ι] (hk : k.Legible) {secrets : Lister Secret}
    {store : CertStore} (hfiles : ∀ f ∈ k.files, store.directory.Accepts f) {call : StoreCall}
    {s₁ s₂ : InFlight ι} (h : Course k e secrets store call s₁ s₂) :
    (s₂.store.CurrentAt s₂.secrets k.text ↔ ¬s₁.Misses k call) ∧
      (call = .update k.text ∨ call = .delete k.text → ¬s₁.Misses k call) ∧
      (call = .resync → (s₁.Misses k call ↔ s₁.store.cached.get? k.text = none ∧
        ∃ i m, (s₁.lookup i).carried? = some m ∧ ¬Current s₁.secrets k m)) ∧
      (s₁.secrets = secrets.step e ∧
        ∀ f t, ((secrets.report e).event? f t .secret).bind Event.storeCall = some call) ∧
      ∀ s : InFlight ι, s.lock = none →
        (∀ i, s.lookup i = .idle → s.EndsWith k e i (certificate s.secrets s.store k)) ∧
        ∀ call, s.upkeep = .reported call → s.CarriesOut k e call := by
  refine ⟨currentAt_iff hk hfiles h, fun hcall => ?_, fun hcall => ?_, ?_, fun s hlock =>
    ⟨fun i hi => endsWith_certificate hi hlock, fun call hu => carriesOut_of_reported hu hlock⟩⟩
  · rcases hcall with rfl | rfl
    · exact not_misses_update s₁
    · exact not_misses_delete s₁
  · subst hcall
    exact misses_resync_iff s₁
  · obtain ⟨before, hbefore⟩ := h.before
    have hheard : s₁.Heard secrets e :=
      foldlM_preserves (fun _ _ _ hs h => Heard.step h hs) hbefore ⟨fun _ => rfl, nofun⟩
    obtain ⟨hsecrets, hcall⟩ := hheard.reported call h.reported
    refine ⟨hsecrets, fun f t => ?_⟩
    rw [← Lister.storeCall?_eq]
    exact hcall

/-- A stale rendering is under way when the call begins; the entry that comes of it is there in
the end, and current. -/
theorem currentAt_of_update :
    ∃ s₁ s₂ : InFlight Unit, Course housedKey (.apply (newer housedKey)) (listedOnce housedKey)
        .empty (.update housedKey.text) s₁ s₂ ∧
      ¬s₁.Clean housedKey ∧ (s₂.store.cached.get? housedKey.text).isSome = true ∧
      s₂.store.CurrentAt s₂.secrets housedKey.text := by
  have hk : housedKey.Legible := by decide
  have hfiles : ∀ f ∈ housedKey.files, CertStore.empty.directory.Accepts f := by decide
  have hrun := exists_course housedKey (.apply (newer housedKey)) (listedOnce housedKey)
    (.update housedKey.text) (p := carriesStale housedKey)
    (q := fun s => (s.store.cached.get? housedKey.text).isSome)
    rendersBefore storesBetween (by decide +kernel)
  obtain ⟨s₁, s₂, hcourse, hstale, hcached⟩ := hrun
  obtain ⟨hiff, hvisited, -⟩ := currentAt_iff_not_misses hk hfiles hcourse
  have hcurrent := hiff.2 (hvisited (.inl rfl))
  exact ⟨s₁, s₂, hcourse, not_clean_of_carriesStale hstale, hcached, hcurrent⟩

/-- A lookup that has rendered the secret before the end of a listing stores it after the call,
which found no entry to visit. And the call for a change of a secret without a namespace visits
another key than the one under which the entry is. -/
theorem not_currentAt_of_overtaking :
    (∃ s₁ s₂ : InFlight Unit, Course housedKey .initDone (listedAgain housedKey) .empty .resync
        s₁ s₂ ∧ ¬s₂.store.CurrentAt s₂.secrets housedKey.text) ∧
    ∃ s₁ s₂ : InFlight Unit, Course bareKey (.apply (newer bareKey)) (listedOnce bareKey) .empty
        (.update "/ca") s₁ s₂ ∧ ¬s₂.store.CurrentAt s₂.secrets bareKey.text := by
  constructor
  · have hrun := exists_course housedKey .initDone (listedAgain housedKey) .resync
      (p := fun _ => true) (q := cachesStale housedKey) rendersBefore storesAfter
      (by decide +kernel)
    obtain ⟨s₁, s₂, hcourse, -, hstale⟩ := hrun
    exact ⟨s₁, s₂, hcourse, not_currentAt_of_cachesStale (by decide) hstale⟩
  · have hrun := exists_course bareKey (.apply (newer bareKey)) (listedOnce bareKey) (.update "/ca")
      (p := fun _ => true) (q := cachesStale bareKey) returnsBefore
      (List.replicate 4 .upkeep) (by decide +kernel)
    obtain ⟨s₁, s₂, hcourse, -, hstale⟩ := hrun
    exact ⟨s₁, s₂, hcourse, not_currentAt_of_cachesStale (by decide) hstale⟩

end InFlight

end IngressCache
