import IngressCache.Proofs.Controller.Handles
import IngressCache.Proofs.Controller.SecretReports
import IngressCache.Proofs.Material.Leftover

/-!
# What a deleted secret leaves behind

After the deletion of a secret is reported, its entry is gone, and so are the files that the entry
named. Parameters for key exchange were written to the file of the bundle, and it is there still if
since they were written no bundle of the secret was known.
-/

namespace IngressCache

/-- The event tells that the secret is gone: it is reported as deleted, or a listing that does not
have it is. -/
def Event.Concludes (secrets : Lister Secret) (k : Key) (e : Event) : Prop :=
  (∃ s, e = .secret ⟨some s, none⟩ ∧ s.metadata.ns = some k.ns ∧ s.metadata.name = some k.name) ∨
    e = .resync ∧ secrets.find? k = none

theorem CertStore.cached_of_concludes {secrets : Lister Secret} {k : Key} (hk : k.Legible)
    (hns : k.ns ≠ "") {e : Event} (he : e.Concludes secrets k) (st : CertStore) :
    (st.after secrets e).cached.get? k.text = none := by
  rcases he with ⟨s, rfl, hsns, hsname⟩ | ⟨rfl, hgone⟩
  · have hkey : objectKey s = k.text :=
      (objectKey_of_metadata hsns hsname).trans ((Key.path_eq_text_iff k).2 hns)
    show (st.evict (objectKey s)).1.cached.get? k.text = none
    rw [evict_cached, if_pos hkey.symm]
  · have hcurrent := (currentAt_text_iff hk).1 (resync_currentAt secrets st k.text)
    exact Option.eq_none_iff_forall_ne_some.2 fun m hm =>
      not_current_of_absent hgone m (hcurrent m hm)

/-- The store returns from what the event asks of it, and no file operation fails. -/
def SecretStore.manages (secrets : Lister Secret) (st : SecretStore) (e : Event) : Bool :=
  e.storeCall.all fun call =>
    (st.call secrets call).any fun (_, warnings) => !warnings.any CertStore.reportsFault

/-- The content of a file, in a store that has files. -/
def SecretStore.content? (f : String) : SecretStore → Option Bytes
  | .files st => st.directory.content? f
  | .observer _ => none

theorem SecretStore.files_of_content? {store : SecretStore} {f : String} {b : Bytes}
    (h : store.content? f = some b) :
    ∃ st, store = .files st ∧ st.directory.content? f = some b := by
  cases store with
  | files st => exact ⟨st, rfl, h⟩
  | observer o => cases h

namespace Controller
open CertStore

/-! ### Histories -/

inductive Occurrence
  | lookup (e : Enquiry)
  | report (e : Event)
  /-- The lister of secrets becomes another. -/
  | list (secrets : Lister Secret)

/-- A lookup that succeeds, a report at which no file operation fails, or a change of the lister. -/
def undergo? (c : Controller) : Occurrence → Option Controller
  | .lookup e =>
    match c.enquire e with
    | (c, .ok _) => some c
    | (_, .error _) => none
  | .report e => if c.store.manages c.listers.secrets e then some (c.notify e).1 else none
  | .list secrets => some { c with listers := { c.listers with secrets := secrets } }

/-- The parameters of the secret are looked up. -/
def Occurrence.Parametrizes (p : Policy) (k : Key) (x : Occurrence) : Prop :=
  ∃ q, x = .lookup (.dh q) ∧ (Enquiry.dh q).Names p k

def NamesBundle (c : Controller) (k : Key) : Prop :=
  ∃ m, c.store.known? k.text = some m ∧ k.bundleFile ∈ m.files

/-- The parameters of the secret were looked up, and never since was its bundle known. -/
def ParametersLeft (c : Controller) (k : Key) (xs : List Occurrence) : Prop :=
  ∃ before x after, xs = before ++ x :: after ∧ x.Parametrizes c.policy k ∧
    ∀ ys, ys <+: after → ∀ c', (before ++ x :: ys).foldlM undergo? c = some c' →
      ¬c'.NamesBundle k

theorem parametersLeft_concat {c c' : Controller} {k : Key} {xs : List Occurrence} {x : Occurrence}
    (hrun : (xs ++ [x]).foldlM undergo? c = some c') :
    ParametersLeft c k (xs ++ [x]) ↔
      (ParametersLeft c k xs ∨ x.Parametrizes c.policy k) ∧ ¬c'.NamesBundle k := by
  constructor
  · rintro ⟨before, y, after, hxs, hy, hsince⟩
    rcases List.eq_nil_or_concat after with rfl | ⟨after, z, rfl⟩
    · obtain ⟨rfl, hlast⟩ := List.append_inj' hxs rfl
      obtain rfl := (List.cons.inj hlast).1
      exact ⟨.inr hy, hsince [] List.prefix_rfl c' hrun⟩
    · have hassoc : before ++ y :: (after ++ [z]) = (before ++ y :: after) ++ [z] := by simp
      rw [List.concat_eq_append] at hxs hsince
      rw [hassoc] at hxs
      refine ⟨.inl ⟨before, y, after, (List.append_inj' hxs rfl).1, hy, fun ys hys => ?_⟩, ?_⟩
      · exact hsince ys (hys.trans (List.prefix_append after [z]))
      · refine hsince _ List.prefix_rfl c' ?_
        rw [hassoc, ← hxs]
        exact hrun
  · rintro ⟨⟨before, y, after, rfl, hy, hsince⟩ | hx, hnow⟩
    · refine ⟨before, y, after ++ [x], by simp, hy, fun ys hys d hd => ?_⟩
      rcases List.prefix_concat_iff.1 hys with rfl | hys
      · have hassoc : before ++ y :: (after ++ [x]) = (before ++ y :: after) ++ [x] := by simp
        rw [hassoc, hrun] at hd
        exact Option.some.inj hd ▸ hnow
      · exact hsince ys hys d hd
    · refine ⟨xs, x, [], rfl, hx, fun ys hys d hd => ?_⟩
      obtain rfl := List.prefix_nil.1 hys
      exact Option.some.inj (hrun.symm.trans hd) ▸ hnow

/-! ### The files of one secret -/

theorem enquire_of_undergo? {c c' : Controller} {e : Enquiry}
    (h : c.undergo? (.lookup e) = some c') : ∃ o, c.enquire e = (c', .ok o) := by
  simp only [undergo?] at h
  generalize c.enquire e = x at h ⊢
  obtain ⟨d, f | o⟩ := x
  · cases h
  · exact ⟨o, by rw [Option.some.inj h]⟩

theorem policy_undergo? {c c' : Controller} {x : Occurrence} (h : c.undergo? x = some c') :
    c'.policy = c.policy := by
  cases x with
  | lookup e =>
    obtain ⟨o, ho⟩ := enquire_of_undergo? h
    have hc : (c.enquire e).1 = c' := congrArg Prod.fst ho
    rw [← hc]
    cases e <;> rfl
  | report e =>
    obtain ⟨-, h⟩ := Option.ite_none_right_eq_some.1 h
    rw [← Option.some.inj h, policy, settings_notify]
    rfl
  | list secrets =>
    rw [← Option.some.inj h]
    rfl

theorem tidyBut_report {c : Controller} {st : CertStore} (hst : c.store = .files st) {k : Key}
    (hk : k.Legible) {left : Prop} (h : TidyBut k left st) {e : Event}
    (hmanages : c.store.manages c.listers.secrets e = true) :
    TidyBut k (left ∧ ¬(st.after c.listers.secrets e).OwnsFor k k.bundleFile)
      (st.after c.listers.secrets e) := by
  rw [hst] at hmanages
  unfold CertStore.after
  cases hcall : e.storeCall with
  | none => exact h.settled
  | some call =>
    refine h.follow hk fun w hw => Bool.eq_false_iff.2 fun hfault => ?_
    simp only [SecretStore.manages, hcall, Option.all_some, SecretStore.call, Option.any_some,
      Bool.not_eq_true', List.any_eq_false] at hmanages
    exact hmanages w hw hfault

theorem tidyBut_undergo? {c c' : Controller} {st : CertStore} (hst : c.store = .files st) {k : Key}
    (hk : k.Simple) {left : Prop} (h : TidyBut k left st) {x : Occurrence}
    (hx : ∀ e, x = .lookup e → ∀ j, e.Names c.policy j → j.Simple)
    (hstep : c.undergo? x = some c') :
    ∃ st', c'.store = .files st' ∧
      TidyBut k ((left ∨ x.Parametrizes c.policy k) ∧ ¬c'.NamesBundle k) st' := by
  have hnames : ∀ {st'}, c'.store = .files st' →
      (c'.NamesBundle k ↔ st'.OwnsFor k k.bundleFile) := by
    intro st' hst'
    rw [NamesBundle, hst']
    rfl
  cases x with
  | lookup e =>
    obtain ⟨o, ho⟩ := enquire_of_undergo? hstep
    obtain ⟨j, st', hj, hst', hserved⟩ := served_of_enquire hst (congrArg Prod.snd ho)
    rw [ho] at hst'
    have hparameters : j = k ∧ e.renders = false ↔
        (Occurrence.lookup e).Parametrizes c.policy k := by
      constructor
      · rintro ⟨rfl, hr⟩
        cases e with
        | dh q => exact ⟨q, rfl, hj⟩
        | _ => cases hr
      · rintro ⟨q, he, hk⟩
        obtain rfl := Occurrence.lookup.inj he
        exact ⟨hj.unique hk, rfl⟩
    refine ⟨st', hst', ?_⟩
    rw [hnames hst', ← hparameters]
    exact h.served (hx e rfl j hj) hk hserved
  | report e =>
    obtain ⟨hmanages, hc⟩ := Option.ite_none_right_eq_some.1 hstep
    have hst' : c'.store = .files (st.after c.listers.secrets e) := by
      rw [← Option.some.inj hc]
      exact (notify_files hst e).2
    refine ⟨_, hst', ?_⟩
    rw [hnames hst']
    simpa [Occurrence.Parametrizes] using tidyBut_report hst hk.toLegible h hmanages
  | list secrets =>
    have hst' : c'.store = .files st := by
      rw [← Option.some.inj hstep]
      exact hst
    refine ⟨st, hst', ?_⟩
    rw [hnames hst']
    simpa [Occurrence.Parametrizes] using h.settled

theorem tidyBut_of_run {c₀ c : Controller} (h₀ : c₀.store = .files .empty) {k : Key}
    (hk : k.Simple) {xs : List Occurrence}
    (hkeys : ∀ e, .lookup e ∈ xs → ∀ j, e.Names c₀.policy j → j.Simple)
    (hrun : xs.foldlM undergo? c₀ = some c) :
    c.policy = c₀.policy ∧ ∃ st, c.store = .files st ∧ TidyBut k (ParametersLeft c₀ k xs) st := by
  induction xs using List.reverseRecOn generalizing c with
  | nil =>
    obtain rfl := Option.some.inj hrun
    have hnever : ParametersLeft c₀ k [] ↔ False := by simp [ParametersLeft]
    refine ⟨rfl, .empty, h₀, ?_⟩
    rw [hnever]
    exact tidyBut_empty k
  | append_singleton xs x ih =>
    obtain ⟨d, hd, hstep⟩ := foldlM_concat_eq_some hrun
    obtain ⟨hpolicy, st, hst, htidy⟩ := ih
      (fun e he => hkeys e (List.mem_append_left _ he)) hd
    obtain ⟨st', hst', htidy'⟩ := tidyBut_undergo? hst hk htidy
      (fun e he => by
        rw [hpolicy]
        exact hkeys e (he ▸ List.mem_append_right _ List.mem_cons_self)) hstep
    refine ⟨(policy_undergo? hstep).trans hpolicy, st', hst', ?_⟩
    rw [parametersLeft_concat hrun, ← hpolicy]
    exact htidy'

/-- A secret is looked up in any way and any number of times, while it changes and what happens is
reported, and in the end its deletion is. Then it has no entry, the files of its authorities and
revocations are gone, and so is the third file unless parameters are left in it. -/
theorem files_gone_iff_not_parametersLeft {settings : Settings}
    {acme : Except KeyFault AcmeKeys} {k : Key} (hk : k.Simple) (hns : k.ns ≠ "")
    {xs : List Occurrence}
    (hkeys : ∀ e, .lookup e ∈ xs → ∀ j, e.Names ⟨settings.allowCrossNamespace⟩ j →
      '/' ∉ j.ns.toList ∧ '_' ∉ j.ns.toList ∧ '_' ∉ j.name.toList)
    {e : Event} {c : Controller}
    (hrun : (xs ++ [Occurrence.report e]).foldlM undergo?
      (start settings acme (.files .empty)) = some c)
    (he : e.Concludes c.listers.secrets k) :
    ∃ st, c.store = .files st ∧ st.cached.get? k.text = none ∧
      (∀ f ∈ k.files, f ≠ k.bundleFile → st.directory.get? f = none) ∧
      ((∀ f ∈ k.files, st.directory.get? f = none) ↔
        ¬ParametersLeft (start settings acme (.files .empty)) k xs) := by
  have hsimple : ∀ e, .lookup e ∈ xs →
      ∀ j, e.Names (start settings acme (.files .empty)).policy j → j.Simple := by
    intro e hmem j hj
    obtain ⟨hslash, hjns, hjname⟩ := hkeys e hmem j hj
    exact Policy.simple_of_resolve hj hslash hjns hjname
  obtain ⟨d, hd, hstep⟩ := foldlM_concat_eq_some hrun
  obtain ⟨-, st, hst, htidy⟩ := tidyBut_of_run rfl hk hsimple hd
  obtain ⟨hmanages, hc⟩ := Option.ite_none_right_eq_some.1 hstep
  obtain rfl := Option.some.inj hc
  obtain ⟨hlisters, hstore⟩ := notify_files hst e
  rw [hlisters] at he
  have hgone := cached_of_concludes hk.toLegible hns he st
  have hafter := tidyBut_report hst hk.toLegible htidy hmanages
  have hfiles : ∀ f ∈ k.files, (st.after d.listers.secrets e).directory.get? f = none ↔
      ¬(f = k.bundleFile ∧ ParametersLeft (start settings acme (.files .empty)) k xs) := by
    intro f hf
    rw [← not_iff_not, not_not, ← ne_eq, ← hafter.directory.removable_iff, hafter.files f hf]
    simp [not_ownsFor_of_none hgone]
  refine ⟨_, hstore, hgone, fun f hf hne => (hfiles f hf).2 fun h => hne h.1, ?_⟩
  constructor
  · exact fun h hleft => (hfiles _ List.mem_cons_self).1 (h _ List.mem_cons_self) ⟨rfl, hleft⟩
  · exact fun hnot f hf => (hfiles f hf).2 fun h => hnot h.2

def plainSecret : Secret :=
  ⟨.ofKey sharedKey, some plainData, none⟩

def plainDeletion : Occurrence :=
  .report (.secret ⟨some plainSecret, none⟩)

def begun : Controller :=
  start .default Settings.default.acmeKeys (.files .empty)

/-- The secret with authorities and parameters comes, is looked up once, and goes. -/
def passing (e : Enquiry) : List Occurrence :=
  [.list (Lister.empty.step (.apply plainSecret)), .lookup e, .list .empty]

theorem files_gone_of_authorities :
    ∃ c st, (passing (.ca sharedQuery) ++ [plainDeletion]).foldlM undergo? begun = some c ∧
      c.store = .files st ∧ ∀ f ∈ sharedKey.files, st.directory.get? f = none := by
  have hrun : ((passing (.ca sharedQuery) ++ [plainDeletion]).foldlM undergo? begun).isSome =
      true := by
    decide +kernel
  obtain ⟨c, hc⟩ := Option.isSome_iff_exists.1 hrun
  obtain ⟨st, hst, -, -, hgone⟩ := files_gone_iff_not_parametersLeft (k := sharedKey) (by decide)
    (by decide) (fun e he j hj => by
      obtain rfl : e = .ca sharedQuery := by simpa [passing] using he
      obtain rfl := @key_of_names_shared plainData _ rfl _ hj
      decide) hc (.inl ⟨plainSecret, rfl, rfl, rfl⟩)
  refine ⟨c, st, hc, hst, hgone.2 ?_⟩
  rintro ⟨before, x, after, hxs, ⟨q, rfl, -⟩, -⟩
  have hmem : .lookup (.dh q) ∈ passing (.ca sharedQuery) :=
    hxs ▸ List.mem_append_right _ List.mem_cons_self
  simp [passing] at hmem

/-- The parameters are looked up, the secret is deleted, and their file is there. -/
theorem parameters_left_of_deletion :
    ∃ c st, (passing (.dh sharedQuery) ++ [plainDeletion]).foldlM undergo? begun = some c ∧
      sharedKey.Simple ∧ sharedKey.ns ≠ "" ∧ c.listers.secrets.find? sharedKey = none ∧
      c.store = .files st ∧
      st.directory.content? sharedKey.bundleFile = plainSecret.get? DataKey.dhParameters ∧
      ¬∀ f ∈ sharedKey.files, st.directory.get? f = none := by
  have hrun : ((passing (.dh sharedQuery) ++ [plainDeletion]).foldlM undergo? begun).any (fun c =>
      (c.listers.secrets.find? sharedKey).isNone &&
        c.store.content? sharedKey.bundleFile == plainSecret.get? DataKey.dhParameters) = true := by
    decide +kernel
  obtain ⟨c, hc, hleft⟩ := (Option.any_eq_true _ _).1 hrun
  rw [Bool.and_eq_true, Option.isNone_iff_eq_none, beq_iff_eq] at hleft
  obtain ⟨st, hst, hcontent⟩ := SecretStore.files_of_content? hleft.2
  refine ⟨c, st, hc, by decide, by decide, hleft.1, hst, hcontent, fun hgone => ?_⟩
  have hnone : st.directory.content? sharedKey.bundleFile = none := by
    unfold Directory.content?
    rw [hgone _ List.mem_cons_self]
  cases hnone.symm.trans hcontent

end Controller

end IngressCache
