import IngressCache.Proofs.Controller.CachedAnswers
import IngressCache.Proofs.Reference.AccessPolicy

/-!
# Confinement to a namespace

Where references across namespaces are not allowed, the answers that an object gets depend on the
secrets of its own namespace alone, with one exception: where the secret of a key is missing, one
of its name that has no namespace is lent to it. Two controllers may have seen different secrets
elsewhere and been asked different questions; if they end with the same secrets in one namespace,
then an object of that namespace can tell them apart exactly where one lends it something and the
other does not.
-/

namespace IngressCache

/-! ### Steps of the watch -/

namespace Lister

/-- What is found under a key is the secret of that key: it is there, or no secret that comes up is
taken for it. -/
def Proper (P : Secret → Prop) (l : Lister Secret) (k : Key) : Prop :=
  (l.stored? k.identity).isSome = true ∨ ∀ s, P s → identity s ≠ { k.identity with ns := none }

theorem find?_of_proper {P : Secret → Prop} {l : Lister Secret} (h : l.Keeps P) {k : Key}
    (hp : l.Proper P k) : l.find? k = l.stored? k.identity := by
  refine find?_of_not_mistakes fun s hs => ?_
  rcases hp with hp | hp
  · rw [hs.absent] at hp
    cases hp
  · obtain ⟨hi, hP⟩ := h.objects _ _ hs.present
    exact hp s hP hi

/-- A step of the watch of secrets changes the secret of a key only where the event that it reports
settles that key. -/
theorem stored?_step_of_report {P : Secret → Prop} {l : Lister Secret} (h : l.Keeps P)
    {e : WatchEvent Secret} (f : ClassFilter) (t : TrackedKeys) {k : Key} (hk : k.Qualified)
    (hun : ∀ event, (l.report e).event? f t .secret = some event →
      ∀ call, event.storeCall = some call → ¬CertStore.settles call k.text) :
    (l.step e).stored? k.identity = l.stored? k.identity := by
  have hkey : ∀ s : Secret, identity s = k.identity → k.text = objectKey s := fun s hs =>
    (objectKey_of_identity hk hs).symm
  cases e with
  | apply s =>
    have hcall : (Event.secret ⟨l.get? (identity s), some s⟩).storeCall =
        some (.update (objectKey s)) := by
      cases l.get? (identity s) <;> rfl
    exact stored?_step_apply_ne l fun hi => hun _ rfl _ hcall (hkey s hi.symm)
  | delete s =>
    by_cases hi : k.identity = identity s
    · rw [hi, stored?_step_delete_self]
      cases hs : l.stored? (identity s) with
      | none => rfl
      | some p =>
        -- The deletion is reported of the secret that goes, and settles its key.
        have hget : l.get? (identity s) = some p := get?_of_stored? hs
        have hevent : (l.report (.delete s)).event? f t .secret =
            some (.secret ⟨some ((l.get? (identity s)).getD s), none⟩) := rfl
        rw [hget] at hevent
        have hsettled : k.text = objectKey p := hkey p ((h.objects _ _ hs).1.trans hi.symm)
        exact absurd hsettled (hun _ hevent (.delete (objectKey p)) rfl)
    · exact stored?_step_delete_ne l hi
  | init => rfl
  | initApply s => rfl
  | initDone => exact absurd trivial (hun _ rfl _ rfl)

end Lister

/-! ### References -/

theorem Resolution.result_run {α : Type} {policy : Policy} {store : SecretStore} {q : Query}
    {ask : SecretStore → Key → SecretStore × Except Failure α} {k : Key}
    (h : policy.resolve q.ns q.reference = .ok k) :
    (run policy store q ask).result = (ask store k).2 := by
  unfold run
  rw [h]
  dsimp only
  generalize ask store k = answer
  rcases answer with ⟨st, _ | _⟩ <;> rfl

/-- Where the secret that a query names gets the same answer, so does the query. -/
theorem Resolution.result_congr {α : Type} {policy : Policy} {store store' : SecretStore}
    {q : Query} {ask ask' : SecretStore → Key → SecretStore × Except Failure α}
    (h : ∀ key, policy.resolve q.ns q.reference = .ok key →
      (ask store key).2 = (ask' store' key).2) :
    (run policy store q ask).result = (run policy store' q ask').result := by
  cases hr : policy.resolve q.ns q.reference with
  | error f =>
    unfold run
    rw [hr]
  | ok key => rw [result_run hr, result_run hr, h key hr]

/-! ### One entry of the store -/

namespace CertStore

theorem CurrentAt.lister {secrets secrets' : Lister Secret} {st : CertStore} {k : Key}
    (hk : k.Legible) (h : st.CurrentAt secrets k.text) (hf : secrets'.find? k = secrets.find? k) :
    st.CurrentAt secrets' k.text := by
  intro m hm
  obtain ⟨r, hr, rfl⟩ := h m hm
  refine ⟨r, ?_, rfl⟩
  rw [renderingOf_text _ hk] at hr ⊢
  rw [rendering_congr hf, hr]

theorem after_currentAt (secrets : Lister Secret) {st : CertStore} {e : Event} {t : String}
    (h : (∀ call, e.storeCall = some call → ¬settles call t) → st.CurrentAt secrets t) :
    (st.after secrets e).CurrentAt secrets t := by
  unfold after
  cases hcall : e.storeCall with
  | none =>
    refine h fun call hc => ?_
    rw [hcall] at hc
    cases hc
  | some call =>
    by_cases hs : settles call t
    · exact follow_currentAt secrets st hs
    · refine (h fun call' hc => ?_).congr (follow_cached_of_not_settles secrets st hs)
      rw [hcall] at hc
      obtain rfl := Option.some.inj hc
      exact hs

/-- Keys with plain names share no entry, so a lookup of one leaves the entries of the others. -/
theorem certificate_currentAt {secrets : Lister Secret} {st : CertStore} {k : Key}
    (hk : k.Qualified) (h : st.CurrentAt secrets k.text) {j : Key} (hj : '/' ∉ j.name.toList) :
    (certificate secrets st j).1.CurrentAt secrets k.text := by
  have hcase := asked secrets st j
  generalize certificate secrets st j = x at hcase ⊢
  cases hcase with
  | known m hm => exact h
  | unrendered hm f hr => exact h
  | unwritten hm r hr f hw => exact h
  | written hm r hr hw =>
    intro m' hm'
    rw [Table.get?_insert] at hm'
    split at hm'
    · rename_i ht
      obtain rfl := Key.eq_of_text_eq hj hk ht.symm
      exact ⟨r, (renderingOf_text secrets hk.toLegible).trans hr, (Option.some.inj hm').symm⟩
    · exact h m' hm'

theorem certificate_known {secrets : Lister Secret} {st : CertStore} {k : Key} {m : Material}
    (hm : st.cached.get? k.text = some m) : (certificate secrets st k).2 = .ok m := by
  unfold certificate
  rw [hm]

theorem certificate_of_currentAt {secrets : Lister Secret} {st : CertStore} {k : Key}
    (hk : k.Legible) (h : st.CurrentAt secrets k.text)
    (hd : ∀ f ∈ k.files, st.directory.Accepts f) :
    (certificate secrets st k).2 = (rendering secrets k).map Rendering.material := by
  cases hm : st.cached.get? k.text with
  | none => exact certificate_of_unknown secrets hm hd
  | some m =>
    obtain ⟨r, hr, rfl⟩ := h m hm
    rw [renderingOf_text secrets hk] at hr
    unfold certificate
    rw [hm, hr]
    rfl

theorem addDhParameters_of_accepts {st : CertStore} {name : String}
    (h : st.directory.Accepts (name ++ ".pem")) (content : Bytes) :
    (st.addDhParameters name content).2 =
      match dhFault? name content with
      | some f => .error f
      | none => .ok ⟨name ++ ".pem", Sha256.hexDigest content⟩ := by
  unfold addDhParameters
  cases dhFault? name content with
  | some f => rfl
  | none => simp only [Directory.write_of_accepts h]

end CertStore

namespace Controller

/-! ### Confined answers -/

/-- All that the controller knows of the secret of a key is what its lister says, unless that is of
another secret. -/
structure Confined (P : Secret → Prop) (d : Directory) (k : Key) (c : Controller) : Prop where
  listed : c.listers.secrets.Keeps P
  store : ∃ st, c.store = .files st ∧
    (c.listers.secrets.Proper P k → st.CurrentAt c.listers.secrets k.text) ∧
    ∀ f, d.Accepts f → st.directory.Accepts f

/-- Keys that are asked for have a plain name. -/
def Action.Plain (a : Action) : Prop :=
  ∀ key, a = .certificate key → '/' ∉ key.name.toList

theorem Action.Plain.of_asks {a : Action} (ha : a.Plain) {p : Policy} {key : Key}
    (h : a.Asks p key) : '/' ∉ key.name.toList := by
  cases a with
  | certificate k => exact ha key (congrArg Action.certificate h)
  | tls q => exact (Policy.plain_of_resolve h).1
  | ca q => exact (Policy.plain_of_resolve h).1
  | _ => cases h

section
variable {P : Secret → Prop} {d : Directory} {k : Key} {c : Controller}

theorem confined_start (P : Secret → Prop) (settings : Settings) (acme : Except KeyFault AcmeKeys)
    (d : Directory) (k : Key) : Confined P d k (start settings acme (.files ⟨d, .empty⟩)) :=
  ⟨Lister.keeps_empty P, ⟨d, .empty⟩, rfl, fun _ => CertStore.currentAt_of_none rfl,
    fun _ hf => hf⟩

theorem confined_notify (hl : c.listers.secrets.Keeps P) {st : CertStore}
    (hst : c.store = .files st) (hd : ∀ f, d.Accepts f → st.directory.Accepts f) {e : Event}
    (h : c.listers.secrets.Proper P k →
      (∀ call, e.storeCall = some call → ¬CertStore.settles call k.text) →
      st.CurrentAt c.listers.secrets k.text) : Confined P d k (c.notify e).1 := by
  obtain ⟨hlisters, hstore⟩ := notify_files hst e
  refine ⟨hlisters ▸ hl, _, hstore, ?_, fun f hf =>
    CertStore.after_accepts _ (hd f hf) e⟩
  rw [hlisters]
  exact fun hp => CertStore.after_currentAt _ (h hp)

theorem confined_observe_secret (hk : k.Qualified) (h : Confined P d k c) {e : WatchEvent Secret}
    (he : ∀ s ∈ e.object?, P s) : Confined P d k (c.act (.observe .secret e)) := by
  obtain ⟨hl, st, hst, hcurrent, hd⟩ := h
  have hl' : (c.advanced .secret e).listers.secrets.Keeps P := hl.step he
  have hstep : (c.advanced .secret e).listers.secrets.Proper P k →
      (∀ event, c.event? (.observe .secret e) = some event →
        ∀ call, event.storeCall = some call → ¬CertStore.settles call k.text) →
      st.CurrentAt (c.advanced .secret e).listers.secrets k.text := by
    intro hp hun
    have hsame : (c.advanced .secret e).listers.secrets.stored? k.identity =
        c.listers.secrets.stored? k.identity :=
      Lister.stored?_step_of_report hl c.classFilter c.aggregator.tracked hk hun
    have hbefore : c.listers.secrets.Proper P k := by
      unfold Lister.Proper at hp ⊢
      rwa [hsame] at hp
    refine (hcurrent hbefore).lister hk.toLegible ?_
    rw [Lister.find?_of_proper hl' hp, Lister.find?_of_proper hl hbefore, hsame]
  rw [act_observe]
  cases hev : c.event? (.observe .secret e) with
  | none =>
    refine ⟨hl', st, hst, fun hp => hstep hp fun event hevent => ?_, hd⟩
    rw [hev] at hevent
    cases hevent
  | some event =>
    refine confined_notify hl' hst hd fun hp hun => hstep hp fun event' hevent => ?_
    rw [hev] at hevent
    obtain rfl := Option.some.inj hevent
    exact hun

theorem confined_observe_of_ne (h : Confined P d k c) {kind : Kind} (hkind : kind ≠ .secret)
    (e : WatchEvent kind.Object) : Confined P d k (c.act (.observe kind e)) := by
  obtain ⟨hl, st, hst, hcurrent, hd⟩ := h
  have hsec : (c.advanced kind e).listers.secrets = c.listers.secrets :=
    secrets_step_of_ne hkind _ _
  rw [← hsec] at hl hcurrent
  rw [act_observe]
  cases c.event? (.observe kind e) with
  | none => exact ⟨hl, st, hst, hcurrent, hd⟩
  | some event => exact confined_notify hl hst hd fun hp _ => hcurrent hp

theorem confined_lookup (hk : k.Qualified) (h : Confined P d k c) {a : Action}
    (ha : a.isLookup = true) (hplain : a.Plain) : Confined P d k (c.act a) := by
  obtain ⟨hl, st, hst, hcurrent, hd⟩ := h
  obtain ⟨hlisters, -, -⟩ := act_of_isLookup c ha
  refine ⟨hlisters ▸ hl, ?_⟩
  rw [hlisters]
  refine store_act_of_isLookup c (P := fun store => ∃ st, store = .files st ∧
    (c.listers.secrets.Proper P k → st.CurrentAt c.listers.secrets k.text) ∧
    ∀ f, d.Accepts f → st.directory.Accepts f)
    ⟨st, hst, hcurrent, hd⟩ ha (fun key hkey => ?_) (fun name content => ?_)
  · rw [hst]
    refine ⟨_, rfl, fun hp => ?_, fun f hf => CertStore.certificate_accepts _ (hd f hf) key⟩
    exact CertStore.certificate_currentAt hk (hcurrent hp) (hplain.of_asks hkey)
  · rw [hst]
    refine ⟨(st.addDhParameters name content).1, rfl, fun hp => (hcurrent hp).congr ?_,
      fun f hf => ?_⟩
    · rw [addDhParameters_cached]
    · exact addDhParameters_accepts (hd f hf) name content

theorem confined_act (hk : k.Qualified) (h : Confined P d k c) {a : Action} (hplain : a.Plain)
    (hP : ∀ s ∈ a.secret?, P s) : Confined P d k (c.act a) := by
  have hlookup := confined_lookup hk h (a := a)
  cases a with
  | observe kind e =>
    by_cases hkind : kind = .secret
    · subst hkind
      exact confined_observe_secret hk h hP
    · exact confined_observe_of_ne h hkind e
  | notify e =>
    obtain ⟨hl, st, hst, hcurrent, hd⟩ := h
    exact confined_notify hl hst hd fun hp _ => hcurrent hp
  | publish => exact ⟨h.listed, h.store⟩
  | _ => exact hlookup rfl hplain

end

theorem confined_run (settings : Settings) (acme : Except KeyFault AcmeKeys) (d : Directory)
    {P : Secret → Prop} {k : Key} (hk : k.Qualified) {as : List Action}
    (hplain : ∀ a ∈ as, a.Plain) (hP : ∀ a ∈ as, ∀ s ∈ a.secret?, P s) :
    Confined P d k ((start settings acme (.files ⟨d, .empty⟩)).run as) :=
  run_invariant (P := Confined P d k) (Q := fun a => a.Plain ∧ ∀ s ∈ a.secret?, P s)
    (fun _ _ ha h => confined_act hk h ha.1 ha.2) (confined_start P settings acme d k)
    fun a ha => ⟨hplain a ha, hP a ha⟩

/-! ### Secrets that are lent -/

/-- The secret of a key is not there, and the controller answers for it all the same. -/
inductive Lends (c : Controller) (k : Key) : Prop
  /-- The lister takes one that has no namespace for it. -/
  | listed {s : Secret} (h : c.listers.secrets.Mistakes k.identity s)
  /-- The store still has the material of such a one. -/
  | kept {m : Material} (habsent : c.listers.secrets.stored? k.identity = none)
      (hm : c.store.known? k.text = some m)

theorem Lends.absent {c : Controller} {k : Key} (h : c.Lends k) :
    c.listers.secrets.stored? k.identity = none := by
  cases h with
  | listed h => exact h.absent
  | kept habsent _ => exact habsent

/-- Where nothing is lent, what is found under the key is its secret. -/
theorem find?_of_not_lends {c : Controller} {k : Key} (h : ¬c.Lends k) :
    c.listers.secrets.find? k = c.listers.secrets.stored? k.identity :=
  Lister.find?_of_not_mistakes fun _ hs => h (.listed hs)

theorem Confined.currentAt {P : Secret → Prop} {d : Directory} {k : Key} {c : Controller}
    (h : Confined P d k c) (hlends : ¬c.Lends k) :
    ∃ st, c.store = .files st ∧ st.CurrentAt c.listers.secrets k.text ∧
      ∀ f, d.Accepts f → st.directory.Accepts f := by
  obtain ⟨-, st, hst, hcurrent, hd⟩ := h
  refine ⟨st, hst, ?_, hd⟩
  cases hown : c.listers.secrets.stored? k.identity with
  | some s => exact hcurrent (.inl (by rw [hown]; rfl))
  | none =>
    refine CertStore.currentAt_of_none (Option.eq_none_iff_forall_ne_some.2 fun m hm => ?_)
    exact hlends (.kept hown (by rw [hst]; exact hm))

/-- Nothing is lent where no secret of that name comes up that has no namespace. -/
theorem Confined.not_lends {P : Secret → Prop} {d : Directory} {k : Key} {c : Controller}
    (h : Confined P d k c) (hk : k.Legible)
    (hP : ∀ s, P s → identity s ≠ { k.identity with ns := none }) : ¬c.Lends k := by
  obtain ⟨hl, st, hst, hcurrent, -⟩ := h
  intro hlends
  cases hlends with
  | listed hs =>
    obtain ⟨hi, hs⟩ := hl.objects _ _ hs.present
    exact hP _ hs hi
  | kept habsent hm =>
    -- An entry says what the lister finds, and that is nothing.
    rw [hst] at hm
    obtain ⟨r, hr, -⟩ := hcurrent (.inr hP) _ hm
    rw [CertStore.renderingOf_text _ hk] at hr
    obtain ⟨s, hs, -⟩ := CertStore.rendering_eq_ok_iff.1 hr
    rw [Lister.find?_of_proper hl (.inr hP), habsent] at hs
    cases hs

/-! ### What an object observes -/

theorem Confined.certificate {P : Secret → Prop} {d : Directory} {k : Key} {c : Controller}
    (h : Confined P d k c) (hlends : ¬c.Lends k) (hk : k.Legible)
    (hd : ∀ f ∈ k.files, d.Accepts f) :
    (c.store.certificate c.listers.secrets k).2 =
      (CertStore.rendering c.listers.secrets k).map Rendering.material := by
  obtain ⟨st, hst, hcurrent, haccepts⟩ := h.currentAt hlends
  rw [hst]
  exact CertStore.certificate_of_currentAt hk hcurrent fun f hf => haccepts f (hd f hf)

theorem Confined.addDhParameters {P : Secret → Prop} {d : Directory} {k : Key} {c : Controller}
    (h : Confined P d k c) (hd : d.Accepts k.bundleFile) (content : Bytes) :
    (c.store.addDhParameters k.fileStem content).2 =
      match CertStore.dhFault? k.fileStem content with
      | some f => .error f
      | none => .ok ⟨k.bundleFile, Sha256.hexDigest content⟩ := by
  obtain ⟨-, st, hst, -, haccepts⟩ := h
  rw [hst]
  exact CertStore.addDhParameters_of_accepts (haccepts _ hd) content

theorem secretContent_congr {secrets secrets' : Lister Secret} {k : Key}
    (h : secrets.find? k = secrets'.find? k) (name : String) :
    Resolver.secretContent secrets k name = Resolver.secretContent secrets' k name := by
  unfold Resolver.secretContent
  rw [h]

theorem secretContent_eq_notFound_iff {secrets : Lister Secret} {k : Key} {name : String} :
    Resolver.secretContent secrets k name = .error (.notFound .secret k.path) ↔
      secrets.find? k = none := by
  unfold Resolver.secretContent
  cases secrets.find? k with
  | none => simp
  | some s =>
    dsimp only
    cases s.get? name <;> simp [Resolver.noKey]

theorem bundleHandle_ne_notFound (k : Key) (m : Material) (kind : Kind) (text : String) :
    Resolver.bundleHandle k m ≠ .error (.notFound kind text) := by
  unfold Resolver.bundleHandle
  split <;> simp

/-- An object cannot tell two controllers apart by what they answer to it. -/
structure Indistinguishable (c c' : Controller) (q : Query) : Prop where
  tls : (c.tls q).2 = (c'.tls q).2
  ca : (c.ca q).2 = (c'.ca q).2
  dh : (c.dh q).2 = (c'.dh q).2
  content : ∀ name, (c.content q name).2 = (c'.content q name).2

/-- The reference of a query means a secret that the controller is lent. -/
def LendsTo (c : Controller) (q : Query) : Prop :=
  ∃ k, c.policy.resolve q.ns q.reference = .ok k ∧ c.Lends k

section
variable {P : Secret → Prop} {d : Directory} {c c' : Controller} {q : Query}

theorem tls_of_resolve {k : Key} (h : c.policy.resolve q.ns q.reference = .ok k) :
    (c.tls q).2 =
      (c.store.certificate c.listers.secrets k).2.bind (Resolver.bundleHandle k) :=
  Resolution.result_run h

theorem content_of_resolve {k : Key} (h : c.policy.resolve q.ns q.reference = .ok k)
    (name : String) :
    (c.content q name).2 = Resolver.secretContent c.listers.secrets k name :=
  Resolution.result_run h

/-- Where nothing is lent, only the secret that the query names tells in the answers. -/
theorem indistinguishable_of_not_lends (hpolicy : c'.policy = c.policy)
    (h : ∀ k, c.policy.resolve q.ns q.reference = .ok k →
      k.Legible ∧ (∀ f ∈ k.files, d.Accepts f) ∧ Confined P d k c ∧ Confined P d k c' ∧
        ¬c.Lends k ∧ ¬c'.Lends k ∧
        c.listers.secrets.stored? k.identity = c'.listers.secrets.stored? k.identity) :
    Indistinguishable c c' q := by
  have hfind : ∀ k, c.policy.resolve q.ns q.reference = .ok k →
      c.listers.secrets.find? k = c'.listers.secrets.find? k := by
    intro k hk
    obtain ⟨-, -, -, -, hl, hl', hsame⟩ := h k hk
    rw [find?_of_not_lends hl, find?_of_not_lends hl', hsame]
  have hcertificate : ∀ k, c.policy.resolve q.ns q.reference = .ok k →
      (c.store.certificate c.listers.secrets k).2 =
        (c'.store.certificate c'.listers.secrets k).2 := by
    intro k hk
    obtain ⟨hlegible, hfiles, hc, hc', hl, hl', -⟩ := h k hk
    rw [hc.certificate hl hlegible hfiles, hc'.certificate hl' hlegible hfiles,
      CertStore.rendering_congr (hfind k hk)]
  refine ⟨?_, ?_, ?_, fun name => ?_⟩
  · show (Resolver.tls c.policy _ _ q).result = (Resolver.tls c'.policy _ _ q).result
    rw [hpolicy]
    exact Resolution.result_congr fun k hk => congrArg (Except.bind · _) (hcertificate k hk)
  · show (Resolver.ca c.policy _ _ q).result = (Resolver.ca c'.policy _ _ q).result
    rw [hpolicy]
    exact Resolution.result_congr fun k hk => congrArg (Except.bind · _) (hcertificate k hk)
  · show (Resolver.dh c.policy _ _ q).result = (Resolver.dh c'.policy _ _ q).result
    rw [hpolicy]
    refine Resolution.result_congr fun k hk => ?_
    obtain ⟨-, hfiles, hc, hc', -⟩ := h k hk
    have hbundle : d.Accepts k.bundleFile := hfiles _ List.mem_cons_self
    rw [secretContent_congr (hfind k hk)]
    cases Resolver.secretContent c'.listers.secrets k DataKey.dhParameters with
    | error f => rfl
    | ok content =>
      refine congrArg (Except.mapError _) ?_
      rw [hc.addDhParameters hbundle, hc'.addDhParameters hbundle]
  · show (Resolver.content c.policy _ _ q name).result =
      (Resolver.content c'.policy _ _ q name).result
    rw [hpolicy]
    exact Resolution.result_congr fun k hk => secretContent_congr (hfind k hk) name

/-- What is lent shows: where nothing is, the secret is reported as missing. -/
theorem not_indistinguishable_of_lends (hpolicy : c'.policy = c.policy) {k : Key}
    (hk : c.policy.resolve q.ns q.reference = .ok k) (hlegible : k.Legible)
    (hfiles : ∀ f ∈ k.files, d.Accepts f) {st : CertStore} (hst : c.store = .files st)
    (hc' : Confined P d k c') (hlends : c.Lends k) (hlends' : ¬c'.Lends k)
    (hsame : c.listers.secrets.stored? k.identity = c'.listers.secrets.stored? k.identity) :
    ¬Indistinguishable c c' q := by
  intro h
  have hk' : c'.policy.resolve q.ns q.reference = .ok k := hpolicy ▸ hk
  have hmissing : c'.listers.secrets.find? k = none :=
    (find?_of_not_lends hlends').trans (hsame.symm.trans hlends.absent)
  cases hlends with
  | listed hs =>
    have hcontent := h.content ""
    rw [content_of_resolve hk, content_of_resolve hk',
      secretContent_eq_notFound_iff.2 hmissing, secretContent_eq_notFound_iff] at hcontent
    exact nomatch hcontent.symm.trans hs.get?_eq
  | kept habsent hm =>
    have htls := h.tls
    rw [tls_of_resolve hk, tls_of_resolve hk', hc'.certificate hlends' hlegible hfiles,
      CertStore.rendering, hmissing] at htls
    rw [hst] at hm htls
    have hknown : (SecretStore.certificate c.listers.secrets (.files st) k).2 = .ok _ :=
      CertStore.certificate_known hm
    rw [hknown] at htls
    exact bundleHandle_ne_notFound _ _ _ _ htls

end

/-- Let two controllers that deny access across namespaces end with the same secrets in the
namespace of an object, whatever else each of them has seen. The object cannot tell one that lends
it nothing from the other exactly if the other lends it nothing either. And nothing is lent where
no secret without a namespace comes up that has the name of the one asked for. -/
theorem indistinguishable_iff_not_lendsTo (settings settings' : Settings)
    (hcross : settings.allowCrossNamespace = false)
    (hcross' : settings'.allowCrossNamespace = false) (acme acme' : Except KeyFault AcmeKeys)
    (d : Directory) {as as' : List Action} (has : ∀ a ∈ as, a.Plain) (has' : ∀ a ∈ as', a.Plain)
    {q : Query} (hns : q.ns ≠ "") (hplain : '/' ∉ q.ns.toList)
    (hfiles : ∀ k, (Policy.mk false).resolve q.ns q.reference = .ok k →
      ∀ f ∈ k.files, d.Accepts f) :
    let c := (start settings acme (.files ⟨d, .empty⟩)).run as
    let c' := (start settings' acme' (.files ⟨d, .empty⟩)).run as'
    (∀ i : Identity, i.ns = some q.ns →
      c.listers.secrets.stored? i = c'.listers.secrets.stored? i) →
    (¬c'.LendsTo q → (Indistinguishable c c' q ↔ ¬c.LendsTo q)) ∧
      (c.LendsTo q → ∃ k a s, (Policy.mk false).resolve q.ns q.reference = .ok k ∧ a ∈ as ∧
        s ∈ a.secret? ∧ identity s = { k.identity with ns := none }) := by
  intro c c' hsame
  have hpolicy : c.policy = ⟨false⟩ := by
    rw [policy, settings_run]
    exact congrArg Policy.mk hcross
  have hpolicy' : c'.policy = ⟨false⟩ := by
    rw [policy, settings_run]
    exact congrArg Policy.mk hcross'
  have hresolve : ∀ k, c.policy.resolve q.ns q.reference = .ok k →
      (Policy.mk false).resolve q.ns q.reference = .ok k := fun k hk => hpolicy ▸ hk
  have hkey : ∀ k, c.policy.resolve q.ns q.reference = .ok k →
      k.Qualified ∧ (∀ f ∈ k.files, d.Accepts f) ∧
        c.listers.secrets.stored? k.identity = c'.listers.secrets.stored? k.identity := by
    intro k hk
    exact ⟨Policy.qualified_of_resolve rfl hns hplain (hresolve k hk), hfiles k (hresolve k hk),
      hsame _ (congrArg some (Policy.ns_of_resolve rfl hns (hresolve k hk)))⟩
  have hc : ∀ (P : Secret → Prop) (k : Key), k.Qualified → (∀ a ∈ as, ∀ s ∈ a.secret?, P s) →
      Confined P d k c := fun P k hk => confined_run settings acme d hk has
  have hc' : ∀ k : Key, k.Qualified → Confined (fun _ => True) d k c' := fun k hk =>
    confined_run settings' acme' d hk has' fun _ _ _ _ => trivial
  refine ⟨fun hlends' => ⟨?_, fun hlends => ?_⟩, ?_⟩
  · rintro h ⟨k, hk, hlends⟩
    obtain ⟨hq, haccepts, hstored⟩ := hkey k hk
    obtain ⟨-, st, hst, -⟩ := hc (fun _ => True) k hq fun _ _ _ _ => trivial
    refine not_indistinguishable_of_lends (hpolicy'.trans hpolicy.symm) hk hq.toLegible haccepts
      hst (hc' k hq) hlends (fun hl => hlends' ⟨k, ?_, hl⟩) hstored h
    rw [hpolicy', ← hpolicy]
    exact hk
  · refine indistinguishable_of_not_lends (P := fun _ => True) (d := d)
      (hpolicy'.trans hpolicy.symm) fun k hk => ?_
    obtain ⟨hq, haccepts, hstored⟩ := hkey k hk
    refine ⟨hq.toLegible, haccepts, hc (fun _ => True) k hq fun _ _ _ _ => trivial, hc' k hq,
      fun hl => hlends ⟨k, hk, hl⟩, fun hl => hlends' ⟨k, ?_, hl⟩, hstored⟩
    rw [hpolicy', ← hpolicy]
    exact hk
  · rintro ⟨k, hk, hlends⟩
    by_contra hnone
    obtain ⟨hq, -, -⟩ := hkey k hk
    let P : Secret → Prop := fun s => identity s ≠ { k.identity with ns := none }
    refine (hc P k hq fun a ha s hs he => ?_).not_lends hq.toLegible (fun s hs => hs) hlends
    exact hnone ⟨k, a, s, hresolve k hk, ha, hs, he⟩

def authoritiesQuery : Query :=
  ⟨"default", "ca", .backend "default_app_8080"⟩

/-- Authorities in a secret that has no namespace. -/
def strayAuthorities : Secret :=
  { Secret.ofAuthorities ⟨"", "ca"⟩ [67] [68] with
    metadata := ⟨none, some "ca", none, none, none, none, false⟩ }

/-- A secret without a namespace is lent to one namespace, that of another namespace is asked for
too, and then the one that was missing comes. -/
def sharedCluster : List Action :=
  [.observe .secret (.apply strayAuthorities),
    .ca authoritiesQuery,
    .observe .secret (.apply (.ofAuthorities ⟨"other", "ca"⟩ [69] [70])),
    .ca { authoritiesQuery with ns := "other" },
    .observe .secret (.apply (.ofAuthorities ⟨"default", "ca"⟩ [65] [66]))]

def ownCluster : List Action :=
  [.observe .secret (.apply (.ofAuthorities ⟨"default", "ca"⟩ [65] [66]))]

def opened (as : List Action) : Controller :=
  (start .default Settings.default.acmeKeys (.files ⟨.empty, .empty⟩)).run as

theorem stored?_opened {i : Identity} (hi : i.ns = some "default") :
    (opened sharedCluster).listers.secrets.stored? i =
      (opened ownCluster).listers.secrets.stored? i := by
  have hstray : i ≠ identity strayAuthorities := by
    rintro rfl
    exact absurd hi (by decide)
  have hother : i ≠ identity (Secret.ofAuthorities ⟨"other", "ca"⟩ [69] [70]) := by
    rintro rfl
    exact absurd hi (by decide)
  have hshared : (opened sharedCluster).listers.secrets =
      (((Lister.empty.step (.apply strayAuthorities)).step
        (.apply (Secret.ofAuthorities ⟨"other", "ca"⟩ [69] [70]))).step
        (.apply (Secret.ofAuthorities ⟨"default", "ca"⟩ [65] [66]))) := by
    simp only [opened, sharedCluster, run, List.foldl_cons, List.foldl_nil, listers_act]
    rfl
  have hown : (opened ownCluster).listers.secrets =
      Lister.empty.step (.apply (Secret.ofAuthorities ⟨"default", "ca"⟩ [65] [66])) := by
    simp only [opened, ownCluster, run, List.foldl_cons, List.foldl_nil, listers_act]
    rfl
  rw [hshared, hown]
  by_cases hself : i = identity (Secret.ofAuthorities ⟨"default", "ca"⟩ [65] [66])
  · rw [hself, Lister.stored?_step_apply_self, Lister.stored?_step_apply_self]
  · rw [Lister.stored?_step_apply_ne _ hself, Lister.stored?_step_apply_ne _ hother,
      Lister.stored?_step_apply_ne _ hstray, Lister.stored?_step_apply_ne _ hself]

theorem indistinguishable_iff_not_lendsTo_of_shared :
    (opened sharedCluster).listers.secrets.toList.length = 3 ∧
      (opened ownCluster).listers.secrets.toList.length = 1 ∧
      Indistinguishable (opened sharedCluster) (opened ownCluster) authoritiesQuery ∧
      ((opened ownCluster).ca authoritiesQuery).2.isOk = true := by
  have has : ∀ a ∈ sharedCluster, a.Plain := by
    simp [sharedCluster, Action.Plain]
  have has' : ∀ a ∈ ownCluster, a.Plain := by
    simp [ownCluster, Action.Plain]
  have hresolve : (Policy.mk false).resolve "default" "ca" = .ok ⟨"default", "ca"⟩ := rfl
  have hfiles : ∀ k, (Policy.mk false).resolve "default" "ca" = .ok k →
      ∀ f ∈ k.files, Directory.Accepts .empty f := by
    intro k hk
    rw [hresolve] at hk
    obtain rfl := Except.ok.inj hk
    decide
  have hsame : ∀ i : Identity, i.ns = some "default" →
      (opened sharedCluster).listers.secrets.stored? i =
        (opened ownCluster).listers.secrets.stored? i := fun _ hi => stored?_opened hi
  have hown : ((opened ownCluster).listers.secrets.stored? ⟨some "default", "ca"⟩).isSome = true := by
    decide +kernel
  -- The secret is there in both, so neither lends anything.
  have hnone : ∀ c : Controller, c.policy = ⟨false⟩ →
      (c.listers.secrets.stored? ⟨some "default", "ca"⟩).isSome = true →
      ¬c.LendsTo authoritiesQuery := by
    rintro c hpolicy hc ⟨k, hk, hlends⟩
    rw [hpolicy] at hk
    obtain rfl := Except.ok.inj (hresolve.symm.trans hk)
    have habsent : c.listers.secrets.stored? ⟨some "default", "ca"⟩ = none := hlends.absent
    rw [habsent] at hc
    cases hc
  have hshared := hnone (opened sharedCluster) (by decide +kernel) (by
    rw [hsame _ rfl]
    exact hown)
  have hlone := hnone (opened ownCluster) (by decide +kernel) hown
  unfold opened at hsame hshared hlone
  obtain ⟨hiff, -⟩ := indistinguishable_iff_not_lendsTo .default .default rfl rfl
    Settings.default.acmeKeys Settings.default.acmeKeys .empty has has' (q := authoritiesQuery)
    (by decide) (by decide) hfiles hsame
  refine ⟨?_, ?_, (hiff hlone).2 hshared, ?_⟩
  · decide +kernel
  · decide +kernel
  · decide +kernel

/-- A secret without a namespace is lent to an object of a namespace that has no secret at all. -/
theorem not_indistinguishable_of_stray :
    let c := opened [.observe .secret (.apply strayAuthorities)]
    let c' := opened []
    (∀ i : Identity, i.ns = some "default" →
      c.listers.secrets.stored? i = c'.listers.secrets.stored? i) ∧
      (c.content authoritiesQuery DataKey.authorities).2 = .ok [67] ∧
      (c'.content authoritiesQuery DataKey.authorities).2 =
        .error (.notFound .secret "default/ca") ∧
      ¬Indistinguishable c c' authoritiesQuery := by
  intro c c'
  have hlent : (c.content authoritiesQuery DataKey.authorities).2 = .ok [67] := by
    decide +kernel
  have hmissing : (c'.content authoritiesQuery DataKey.authorities).2 =
      .error (.notFound .secret "default/ca") := by
    decide +kernel
  refine ⟨fun i hi => ?_, hlent, hmissing, fun h => ?_⟩
  · have hstray : i ≠ identity strayAuthorities := by
      rintro rfl
      exact absurd hi (by decide)
    have hc : c.listers.secrets = Lister.empty.step (.apply strayAuthorities) := by
      simp only [c, opened, run, List.foldl_cons, List.foldl_nil, listers_act]
      rfl
    rw [hc]
    exact Lister.stored?_step_apply_ne _ hstray
  · exact nomatch hlent.symm.trans ((h.content _).trans hmissing)

end Controller

end IngressCache
