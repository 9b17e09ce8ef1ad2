import IngressCache.Proofs.Controller.Activity

/-!
# Cached answers

The store keeps what it once rendered and hears of changes only through events. Whatever the
order of watch steps, relists, other events and lookups, after each of them every entry of the
store says what its secret's rendering says now, so that a store which knew nothing would give
the same answers.
-/

namespace IngressCache

/-! ### What an event settles -/

theorem CertStore.after_fresh {secrets : Lister Secret} (hi : secrets.Indexed) {st : CertStore}
    {e : Event} (h : ∀ t, (∀ call, e.storeCall = some call → ¬settles call t) →
      st.FreshAt secrets t) : (st.after secrets e).Fresh secrets := by
  unfold after
  cases hcall : e.storeCall with
  | none =>
    intro t
    refine h t fun call hc => ?_
    rw [hcall] at hc
    cases hc
  | some call =>
    refine follow_fresh hi call fun t ht => h t fun call' hc => ?_
    rw [hcall] at hc
    obtain rfl := Option.some.inj hc
    exact ht

theorem CertStore.after_accepts (secrets : Lister Secret) {st : CertStore} {f : String}
    (h : st.directory.Accepts f) (e : Event) : (st.after secrets e).directory.Accepts f := by
  unfold after
  split
  · exact h
  · exact follow_accepts secrets h _

/-- A step of the watch of secrets changes lookups only where the event it reports settles. -/
theorem Lister.find?_step_of_report {l : Lister Secret} (h : l.Indexed) {e : WatchEvent Secret}
    (he : ∀ s ∈ e.object?, Named s) (f : ClassFilter) (t : TrackedKeys) {k : Key}
    (hk : ∀ event, (l.report e).event? f t .secret = some event →
      ∀ call, event.storeCall = some call → ¬CertStore.settles call k.text) :
    (l.step e).find? k = l.find? k := by
  cases e with
  | apply s =>
    have hs : Named s := he s rfl
    have hcall : (Event.secret ⟨l.get? (identity s), some s⟩).storeCall =
        some (.update (objectKey s)) := by
      cases hget : l.get? (identity s) <;> rfl
    have hne := hk _ rfl _ hcall
    rw [find?_step_apply h hs, if_neg]
    rintro rfl
    exact hne hs.objectKey_eq.symm
  | delete s =>
    have hs : Named s := he s rfl
    obtain ⟨p, hr, hp, hkey⟩ := report_delete h hs
    rw [hr] at hk
    have hne := hk _ rfl _ rfl
    rw [find?_step_delete h hs, if_neg]
    rintro rfl
    refine hne ?_
    show (keyOf s).text = objectKey p
    rw [hp.objectKey_eq, hkey]
  | init => rfl
  | initApply s => rfl
  | initDone => exact absurd trivial (hk _ rfl _ rfl)

namespace Controller

/-! ### Coherence -/

/-- The store is one of files, and it agrees with the lister of secrets. Names that `d` accepts
stay writable: nothing in the controller makes folders. -/
structure Coherent (d : Directory) (c : Controller) : Prop where
  indexed : c.listers.secrets.Indexed
  store : ∃ st, c.store = .files st ∧ st.Fresh c.listers.secrets ∧
    ∀ f, d.Accepts f → st.directory.Accepts f

theorem coherent_start (settings : Settings) (acme : Except KeyFault AcmeKeys) (d : Directory) :
    Coherent d (start settings acme (.files ⟨d, .empty⟩)) := by
  refine ⟨Lister.indexed_empty, ⟨d, .empty⟩, rfl, fun t => ?_, fun f hf => hf⟩
  exact CertStore.freshAt_of_none rfl

theorem coherent_notify {d : Directory} {c : Controller} (hi : c.listers.secrets.Indexed)
    {st : CertStore} (hst : c.store = .files st) (hd : ∀ f, d.Accepts f → st.directory.Accepts f)
    {e : Event} (h : ∀ t, (∀ call, e.storeCall = some call → ¬CertStore.settles call t) →
      st.FreshAt c.listers.secrets t) : Coherent d (c.notify e).1 := by
  obtain ⟨hl, hs⟩ := notify_files hst e
  refine ⟨hl ▸ hi, _, hs, ?_, fun f hf => CertStore.after_accepts _ (hd f hf) e⟩
  rw [hl]
  exact CertStore.after_fresh hi h

theorem coherent_observe_secret {d : Directory} {c : Controller} (h : Coherent d c)
    {e : WatchEvent Secret} (he : ∀ s ∈ e.object?, Named s) :
    Coherent d (c.act (.observe .secret e)) := by
  obtain ⟨hi, st, hst, hfresh, hd⟩ := h
  have hi' : (c.advanced .secret e).listers.secrets.Indexed := hi.step he
  have hstale : ∀ t, (∀ event, c.event? (.observe .secret e) = some event →
      ∀ call, event.storeCall = some call → ¬CertStore.settles call t) →
      st.FreshAt (c.advanced .secret e).listers.secrets t := by
    intro t ht m hm
    obtain ⟨k, r, rfl, hr, rfl⟩ := hfresh t m hm
    have hsame := Lister.find?_step_of_report hi he c.classFilter c.aggregator.tracked ht
    exact ⟨k, r, rfl, (CertStore.rendering_congr hsame).trans hr, rfl⟩
  rw [act_observe]
  cases hev : c.event? (.observe .secret e) with
  | none =>
    refine ⟨hi', st, hst, fun t => hstale t fun event hevent => ?_, hd⟩
    rw [hev] at hevent
    cases hevent
  | some event =>
    refine coherent_notify hi' hst hd fun t ht => hstale t fun event' hevent => ?_
    rw [hev] at hevent
    obtain rfl := Option.some.inj hevent
    exact ht

theorem coherent_observe_of_ne {d : Directory} {c : Controller} (h : Coherent d c) {k : Kind}
    (hk : k ≠ .secret) (e : WatchEvent k.Object) : Coherent d (c.act (.observe k e)) := by
  obtain ⟨hi, st, hst, hfresh, hd⟩ := h
  have hsec : (c.advanced k e).listers.secrets = c.listers.secrets := secrets_step_of_ne hk _ _
  have hi' : (c.advanced k e).listers.secrets.Indexed := hsec ▸ hi
  have hfresh' : st.Fresh (c.advanced k e).listers.secrets := hsec ▸ hfresh
  rw [act_observe]
  cases c.event? (.observe k e) with
  | none => exact ⟨hi', st, hst, hfresh', hd⟩
  | some event => exact coherent_notify hi' hst hd fun t _ => hfresh' t

/-! ### Lookups -/

theorem addDhParameters_cached (st : CertStore) (name : String) (content : Bytes) :
    (st.addDhParameters name content).1.cached = st.cached := by
  unfold CertStore.addDhParameters
  split
  · rfl
  · simp only
    split <;> rfl

theorem addDhParameters_accepts {st : CertStore} {f : String} (h : st.directory.Accepts f)
    (name : String) (content : Bytes) :
    (st.addDhParameters name content).1.directory.Accepts f := by
  unfold CertStore.addDhParameters
  split
  · exact h
  · simp only
    split
    · exact h
    · rename_i d hw
      exact (CertStore.lasting_accepts f).write h hw

theorem coherent_lookup {d : Directory} {c : Controller} (h : Coherent d c) {a : Action}
    (ha : a.isLookup = true) : Coherent d (c.act a) := by
  obtain ⟨hi, st, hst, hfresh, hd⟩ := h
  obtain ⟨hl, -, -⟩ := act_of_isLookup c ha
  refine ⟨hl ▸ hi, ?_⟩
  rw [hl]
  refine store_act_of_isLookup c (P := fun store => ∃ st, store = .files st ∧
    st.Fresh c.listers.secrets ∧ ∀ f, d.Accepts f → st.directory.Accepts f)
    ⟨st, hst, hfresh, hd⟩ ha (fun key _ => ?_) (fun name content => ?_)
  · rw [hst]
    refine ⟨_, rfl, CertStore.certificate_fresh hfresh key, fun f hf => ?_⟩
    exact CertStore.certificate_accepts _ (hd f hf) key
  · rw [hst]
    refine ⟨(st.addDhParameters name content).1, rfl, fun t => (hfresh t).congr ?_, fun f hf => ?_⟩
    · rw [addDhParameters_cached]
    · exact addDhParameters_accepts (hd f hf) name content

/-! ### Every run -/

theorem coherent_act {d : Directory} {c : Controller} (h : Coherent d c) {a : Action}
    (ha : ∀ s ∈ a.secret?, Named s) : Coherent d (c.act a) := by
  have hlookup := coherent_lookup h (a := a)
  cases a with
  | observe k e =>
    by_cases hk : k = .secret
    · subst hk
      exact coherent_observe_secret h ha
    · exact coherent_observe_of_ne h hk e
  | notify e =>
    obtain ⟨hi, st, hst, hfresh, hd⟩ := h
    exact coherent_notify hi hst hd fun t _ => hfresh t
  | publish => exact ⟨h.indexed, h.store⟩
  | _ => exact hlookup rfl

theorem coherent_run (settings : Settings) (acme : Except KeyFault AcmeKeys) (d : Directory)
    {as : List Action} (has : ∀ a ∈ as, ∀ s ∈ a.secret?, Named s) :
    Coherent d ((start settings acme (.files ⟨d, .empty⟩)).run as) :=
  run_invariant (P := Coherent d) (Q := fun a => ∀ s ∈ a.secret?, Named s)
    (fun _ _ ha h => coherent_act h ha) (coherent_start settings acme d) has

/-- After every run each entry of the store has a secret in the lister and says what its rendering
says now, and the store answers as one would that knows nothing. -/
theorem cached_answer_eq_fresh_answer (settings : Settings) (acme : Except KeyFault AcmeKeys)
    (d : Directory) (as : List Action) (has : ∀ a ∈ as, ∀ s ∈ a.secret?, Named s) :
    let c := (start settings acme (.files ⟨d, .empty⟩)).run as
    ∃ st, c.store = .files st ∧
      (∀ t m, st.cached.get? t = some m → ∃ k s r, k.Qualified ∧ k.text = t ∧
        c.listers.secrets.find? k = some s ∧ s.render k = .ok r ∧ m = r.material) ∧
      ∀ k : Key, k.Qualified → (∀ f ∈ k.files, d.Accepts f) →
        ∀ d' : Directory, (∀ f ∈ k.files, d'.Accepts f) →
          (CertStore.certificate c.listers.secrets st k).2 =
            (CertStore.certificate c.listers.secrets ⟨d', .empty⟩ k).2 := by
  intro c
  obtain ⟨hi, st, hst, hfresh, hd⟩ := coherent_run settings acme d has
  refine ⟨st, hst, fun t m hm => ?_, fun k hk hfiles d' hd' => ?_⟩
  · obtain ⟨k, r, hk, hr, rfl⟩ := hfresh t m hm
    obtain ⟨s, hs, hrender⟩ := CertStore.rendering_eq_ok_iff.1 hr
    exact ⟨k, s, r, Lister.qualified_of_find? hi hs, hk, hs, hrender, rfl⟩
  · have hold := CertStore.certificate_of_fresh hi hfresh hk.toLegible
      fun f hf => hd f (hfiles f hf)
    have hm : (CertStore.mk d' .empty).cached.get? k.text = none := rfl
    exact hold.trans (CertStore.certificate_of_unknown c.listers.secrets hm hd').symm

/-- A secret is asked for, changes, and is listed again as it was. -/
def rotation (k : Key) : List Action :=
  [.observe .secret (.apply (.ofAuthorities k [65] [66])),
    .certificate k,
    .observe .secret (.apply (.ofAuthorities k [67] [68])),
    .observe .secret .init,
    .observe .secret (.initApply (.ofAuthorities k [65] [66])),
    .observe .secret .initDone]

theorem named_of_mem_rotation {k : Key} (hk : k.Qualified) :
    ∀ a ∈ rotation k, ∀ s ∈ a.secret?, Named s := by
  simp [rotation, Action.secret?, WatchEvent.object?, Secret.named_ofAuthorities hk]

def rotated (k : Key) : Controller :=
  (start .default Settings.default.acmeKeys (.files ⟨.empty, .empty⟩)).run (rotation k)

theorem cached_answer_eq_fresh_answer_rotated :
    ∃ st, (rotated ⟨"default", "ca"⟩).store = .files st ∧
      (st.cached.get? "default/ca").isSome = true ∧
      (CertStore.certificate (rotated ⟨"default", "ca"⟩).listers.secrets st
        ⟨"default", "ca"⟩).2 =
      (CertStore.certificate (rotated ⟨"default", "ca"⟩).listers.secrets ⟨.empty, .empty⟩
        ⟨"default", "ca"⟩).2 := by
  have hk : (⟨"default", "ca"⟩ : Key).Qualified := by decide
  have hknown : ((rotated ⟨"default", "ca"⟩).store.known? "default/ca").isSome = true := by
    decide +kernel
  obtain ⟨st, hst, -, h⟩ := cached_answer_eq_fresh_answer .default Settings.default.acmeKeys
    .empty (rotation ⟨"default", "ca"⟩) (named_of_mem_rotation hk)
  rw [rotated, hst] at hknown
  have hsame := h ⟨"default", "ca"⟩ hk (by decide) .empty (by decide)
  rw [rotated]
  exact ⟨st, hst, hknown, hsame⟩

end Controller

end IngressCache
