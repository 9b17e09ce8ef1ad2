import IngressCache.Proofs.Change.ConfigCopy
import IngressCache.Proofs.Controller.OpenWindow

/-!
# Following the tracked config maps

The content that the lister has of a tracked config map changes with the events that reach the
aggregator, and with relists. At every publish the two are related as a log of publishes requires,
so a consumer's copy goes wrong in one way only: a change after a relist that leads back to the
content before it.
-/

namespace IngressCache

/-! ### Steps of the watch of config maps -/

def WatchEvent.sets? (k : Key) : WatchEvent ConfigMap → Option Texts
  | .apply o => if keyOf o = k then some o.content else none
  | _ => none

theorem Lister.content_step {l : Lister ConfigMap} (h : l.Indexed) {k : Key}
    {e : WatchEvent ConfigMap} (hnamed : ∀ o ∈ e.object?, Named o)
    (hdelete : ∀ o, e = .delete o → keyOf o ≠ k) (hdone : e ≠ .initDone) :
    ((l.step e).find? k).map ConfigMap.content =
      (e.sets? k <|> (l.find? k).map ConfigMap.content) := by
  cases e with
  | apply o =>
    rw [find?_step_apply h (hnamed o rfl), WatchEvent.sets?]
    by_cases hk : keyOf o = k
    · rw [if_pos hk, if_pos hk.symm]
      rfl
    · rw [if_neg hk, if_neg (Ne.symm hk)]
      rfl
  | delete o =>
    rw [find?_step_delete h (hnamed o rfl), if_neg (Ne.symm (hdelete o rfl))]
    rfl
  | init => rfl
  | initApply o => rfl
  | initDone => exact absurd rfl hdone

namespace TrackedKeys

variable {t : TrackedKeys} {m : TrackedMap} {k : Key}

theorem tracks_of_keyOf? {key : String} (h : t.keyOf? m = some key) : t.tracks key = true := by
  rw [tracks_iff]
  cases m with
  | global => exact .inl h
  | tcp => exact .inr h

theorem brings_of_change?_none {e : Event} (h : e.change? .configMap = none) :
    t.brings m e = none := by
  cases m with
  | global => simp [brings, globalContent?, h]
  | tcp => simp [brings, tcpContent?, h]

theorem brings_deleted (o : ConfigMap) : t.brings m (.configMap ⟨some o, none⟩) = none := by
  cases m <;> rfl

/-- With different keys, a map gives its content to the place of its own key alone. -/
theorem brings_configMap (hkey : t.keyOf? m = some k.path) (hdiff : t.global ≠ t.tcp)
    (hk : k.Qualified) {o : ConfigMap} (ho : Named o) (old : Option ConfigMap) :
    t.brings m (.configMap ⟨old, some o⟩) = if keyOf o = k then some o.content else none := by
  have hpath : objectKey o = k.path ↔ keyOf o = k := by
    rw [ho.objectKey_eq, ← Key.text_eq_path hk]
    exact ⟨Key.text_injective ho.qualified.toLegible hk.toLegible, fun h => by rw [h]⟩
  cases m with
  | global =>
    have hglobal : t.global = some k.path := hkey
    simp only [brings, globalContent?, Event.change?, Option.bind_some, hglobal,
      Option.some.injEq, eq_comm (a := k.path), hpath]
  | tcp =>
    have htcp : t.tcp = some k.path := hkey
    simp only [brings, tcpContent?, Event.change?, Option.bind_some, htcp, Option.some.injEq,
      eq_comm (a := k.path), hpath]
    by_cases hk' : keyOf o = k
    · have hne : t.global ≠ some (objectKey o) := by
        rw [hpath.2 hk', ← htcp]
        exact hdiff
      rw [if_neg hne]
    · rw [if_neg hk']
      split <;> rfl

theorem change?_of_latest {c : Change ConfigMap} {o : ConfigMap} (h : c.latest = some o) :
    t.change? c = if t.tracks (objectKey o) then some c else none := by
  unfold change?
  rw [h]
  rfl

end TrackedKeys

theorem Report.event?_configMap {t : TrackedKeys} {m : TrackedMap} {k : Key}
    (hkey : t.keyOf? m = some k.path) (hdiff : t.global ≠ t.tcp) (hk : k.Qualified)
    (f : ClassFilter) (l : Lister ConfigMap) {e : WatchEvent ConfigMap}
    (hnamed : ∀ o ∈ e.object?, Named o) :
    match (l.report e).event? f t .configMap with
    | none => e.sets? k = none ∧ e ≠ .initDone
    | some event => event.isBlank = false → t.brings m event = e.sets? k ∧ e ≠ .initDone := by
  cases e with
  | apply o =>
    have ho : Named o := hnamed o rfl
    have hlatest : (⟨l.get? (identity o), some o⟩ : Change ConfigMap).latest = some o := rfl
    simp only [Lister.report, Report.event?, TrackedKeys.change?_of_latest hlatest]
    cases ht : t.tracks (objectKey o) with
    | true =>
      intro _
      exact ⟨TrackedKeys.brings_configMap hkey hdiff hk ho _, by simp⟩
    | false =>
      refine ⟨if_neg fun hko => ?_, by simp⟩
      have hpath : objectKey o = k.path := by
        rw [ho.objectKey_eq, hko, Key.text_eq_path hk]
      rw [hpath, TrackedKeys.tracks_of_keyOf? hkey] at ht
      cases ht
  | delete o =>
    have hlatest : (⟨some ((l.get? (identity o)).getD o), none⟩ : Change ConfigMap).latest =
        some ((l.get? (identity o)).getD o) := rfl
    simp only [Lister.report, Report.event?, TrackedKeys.change?_of_latest hlatest]
    cases t.tracks (objectKey ((l.get? (identity o)).getD o)) with
    | true => exact fun _ => ⟨TrackedKeys.brings_deleted _, by simp⟩
    | false => exact ⟨rfl, by simp⟩
  | init => exact ⟨rfl, by simp⟩
  | initApply o => exact ⟨rfl, by simp⟩
  | initDone => exact fun h => by cases h

theorem Report.change?_of_event? {j : Kind} (hj : j ≠ .configMap) {r : Report j.Object}
    {f : ClassFilter} {t : TrackedKeys} {e : Event} (h : r.event? f t j = some e) :
    e.change? .configMap = none := by
  cases j with
  | configMap => exact absurd rfl hj
  | ingress =>
    cases r with
    | change c =>
      obtain ⟨c', -, rfl⟩ := Option.map_eq_some_iff.1 h
      rfl
    | resync =>
      obtain rfl := Option.some.inj h
      rfl
    | nothing => cases h
  | _ =>
    cases r with
    | nothing => cases h
    | _ =>
      obtain rfl := Option.some.inj h
      rfl

namespace Controller

/-! ### Actions -/

def contentAt (c : Controller) (k : Key) : Option Texts :=
  (c.listers.configMaps.find? k).map ConfigMap.content

/-- True for actions by which the config map is never deleted, and no event of config maps comes
from elsewhere than their watch. -/
def Action.Spares (k : Key) : Action → Prop
  | .observe .configMap e => (∀ o ∈ e.object?, Named o) ∧ ∀ o, e = .delete o → keyOf o ≠ k
  | .notify e => e.change? .configMap = none
  | _ => True

/-- The controller tracks the config map of that key, and its store returns from every call. -/
structure Feeds (c : Controller) (m : TrackedMap) (k : Key) : Prop where
  answers : ∀ call, c.store.answers call = true
  indexed : c.listers.configMaps.Indexed
  key : c.aggregator.tracked.keyOf? m = some k.path
  keys_ne : c.aggregator.tracked.global ≠ c.aggregator.tracked.tcp

variable {c : Controller} {m : TrackedMap} {k : Key}

theorem Feeds.act (h : c.Feeds m k) {a : Action} (ha : a.Spares k) : (c.act a).Feeds m k := by
  obtain ⟨hans, hl, -⟩ := act_of_answers h.answers a
  have htracked := tracked_act h.answers a
  refine ⟨fun call => hans ▸ h.answers call, ?_, htracked ▸ h.key, htracked ▸ h.keys_ne⟩
  rw [hl]
  cases a with
  | observe j e =>
    by_cases hj : j = .configMap
    · subst hj
      exact h.indexed.step ha.1
    · show (c.listers.step j e).configMaps.Indexed
      rw [configMaps_step_of_ne hj]
      exact h.indexed
  | _ => exact h.indexed

/-- An action changes the content that the lister has as its event says. A blank event says
nothing. -/
theorem Feeds.contentAt_act (h : c.Feeds m k) (hk : k.Qualified) {a : Action} (ha : a.Spares k) :
    match c.event? a with
    | none => (c.act a).contentAt k = c.contentAt k
    | some e => e.isBlank = false →
      (c.act a).contentAt k = (c.aggregator.tracked.brings m e <|> c.contentAt k) := by
  obtain ⟨-, hl, -⟩ := act_of_answers h.answers a
  cases a with
  | observe j e =>
    have hnow : (c.act (.observe j e)).contentAt k =
        ((c.listers.step j e).configMaps.find? k).map ConfigMap.content := by
      rw [contentAt, hl]
    rw [hnow]
    by_cases hj : j = .configMap
    · subst hj
      have hreport := Report.event?_configMap h.key h.keys_ne hk c.classFilter
        c.listers.configMaps ha.1
      have hstep := Lister.content_step h.indexed ha.1 ha.2
      have hev : c.event? (.observe .configMap e) = (c.listers.configMaps.report e).event?
          c.classFilter c.aggregator.tracked .configMap := rfl
      rw [hev]
      generalize (c.listers.configMaps.report e).event? c.classFilter c.aggregator.tracked
        .configMap = reported at hreport ⊢
      cases reported with
      | none =>
        obtain ⟨hsets, hdone⟩ := hreport
        refine (hstep hdone).trans ?_
        rw [hsets]
        rfl
      | some event =>
        intro hb
        obtain ⟨hbrings, hdone⟩ := hreport hb
        rw [hbrings]
        exact hstep hdone
    · rw [configMaps_step_of_ne hj]
      cases hev : c.event? (.observe j e) with
      | none => rfl
      | some event =>
        intro _
        rw [event?_observe] at hev
        obtain ⟨l, -, hreport⟩ := Option.bind_eq_some_iff.1 hev
        rw [TrackedKeys.brings_of_change?_none (Report.change?_of_event? hj hreport)]
        rfl
  | notify e =>
    intro _
    rw [contentAt, hl, TrackedKeys.brings_of_change?_none ha]
    rfl
  | _ =>
    show contentAt _ k = _
    rw [contentAt, hl]
    rfl

/-! ### Publishes of a run -/

def publications (c : Controller) (k : Key) : List Action → List Publication
  | [] => []
  | .publish :: as => ⟨c.publish.2, c.contentAt k⟩ :: (c.act .publish).publications k as
  | a :: as => (c.act a).publications k as

theorem publications_cons_of_ne (c : Controller) (k : Key) {a : Action} (h : a ≠ .publish)
    (as : List Action) : c.publications k (a :: as) = (c.act a).publications k as := by
  cases a with
  | publish => exact absurd rfl h
  | _ => rfl

theorem publications_append (c : Controller) (k : Key) (as bs : List Action) :
    c.publications k (as ++ bs) = c.publications k as ++ (c.run as).publications k bs := by
  induction as generalizing c with
  | nil => rfl
  | cons a as ih =>
    rw [List.cons_append, run_cons]
    by_cases ha : a = .publish
    · subst ha
      show _ :: _ = _ :: _ ++ _
      rw [ih]
      rfl
    · rw [publications_cons_of_ne c k ha, publications_cons_of_ne c k ha, ih]

/-- The buffers hold a window, and as long as it asks for no full synchronisation the lister has
the content that the window brings, or `held` if it brings none. -/
structure Matches (c : Controller) (m : TrackedMap) (k : Key) (before w : List Event)
    (held : Option Texts) : Prop where
  pending : c.aggregator.pending = .ofEvents c.aggregator.tracked before w
  content : w.any Event.isBlank = false →
    c.contentAt k = (lastContent (c.aggregator.tracked.brings m) w <|> held)

theorem Matches.act {before w : List Event} {held : Option Texts}
    (hm : c.Matches m k before w held) (h : c.Feeds m k) (hk : k.Qualified) {a : Action}
    (ha : a.Spares k) (hpub : a ≠ .publish) :
    ∃ w', (c.act a).Matches m k before w' held := by
  have htracked := tracked_act h.answers a
  have hcontent := h.contentAt_act hk ha
  refine ⟨w ++ (c.event? a).toList, Gathers.act hm.pending h.answers hpub, fun hw => ?_⟩
  rw [htracked]
  cases hev : c.event? a with
  | none =>
    rw [hev, Option.toList_none, List.append_nil] at hw
    rw [hev] at hcontent
    rw [hcontent, hm.content hw, Option.toList_none, List.append_nil]
  | some e =>
    rw [hev, Option.toList_some, List.any_append, Bool.or_eq_false_iff] at hw
    rw [hev] at hcontent
    have he : e.isBlank = false := by simpa using hw.2
    rw [hcontent he, hm.content hw.1, Option.toList_some, lastContent_concat]
    cases c.aggregator.tracked.brings m e <;> rfl

theorem Matches.publish {before w : List Event} {held : Option Texts}
    (hm : c.Matches m k before w held) :
    (c.act .publish).Matches m k (before ++ w) [] (c.contentAt k) :=
  ⟨Aggregator.pending_publish hm.pending, fun _ => rfl⟩

theorem Matches.chained {before w : List Event} {held : Option Texts}
    (hm : c.Matches m k before w held) (h : c.Feeds m k) (hk : k.Qualified) {as : List Action}
    (has : ∀ a ∈ as, a.Spares k) :
    Publication.Chained m (lastContent (c.aggregator.tracked.brings m) before) held
      (c.publications k as) := by
  induction as generalizing c before w held with
  | nil => trivial
  | cons a as ih =>
    have ha := has a List.mem_cons_self
    have has' : ∀ b ∈ as, Action.Spares k b := fun b hb => has b (List.mem_cons_of_mem _ hb)
    by_cases hpub : a = .publish
    · subst hpub
      have hsnapshot : c.publish.2 =
          (Pending.ofEvents c.aggregator.tracked before w).snapshot :=
        congrArg Pending.snapshot hm.pending
      have hnew : (c.publish.2.contentOf m) =
          ⟨lastContent (c.aggregator.tracked.brings m) before,
            lastContent (c.aggregator.tracked.brings m) w⟩ := by
        rw [hsnapshot]
        cases m <;> rfl
      have hrest := ih hm.publish (h.act ha) has'
      refine ⟨?_, fun hfull => ?_, ?_⟩
      · show (c.publish.2.contentOf m).cur = _
        rw [hnew]
      · show c.contentAt k = ((c.publish.2.contentOf m).new <|> held)
        rw [hnew]
        refine hm.content ?_
        have hfull : c.publish.2.fullSync = false := hfull
        rw [hsnapshot] at hfull
        exact hfull
      · show Publication.Chained m ((c.publish.2.contentOf m).new <|> _) (c.contentAt k) _
        rw [hnew, ← lastContent_append]
        exact hrest
    · obtain ⟨w', hm'⟩ := hm.act h hk ha hpub
      have hrest := ih hm' (h.act ha) has'
      rw [tracked_act h.answers a] at hrest
      rw [publications_cons_of_ne c k hpub]
      exact hrest

/-- Right after every publish of every run, a consumer's copy of a tracked config map that is listed
is what the lister has, unless a change back to the content before a relist was missed. -/
theorem copy_eq_content_iff_not_missed (settings : Settings) (acme : Except KeyFault AcmeKeys)
    {store : SecretStore} (hstore : ∀ call, store.answers call = true) {m : TrackedMap} {k : Key}
    (hk : k.Qualified)
    (hkey : TrackedKeys.keyOf? ⟨settings.globalConfigMap, settings.tcpConfigMap⟩ m = some k.path)
    (hdiff : settings.globalConfigMap ≠ settings.tcpConfigMap) {as : List Action}
    (has : ∀ a ∈ as, a.Spares k)
    (hlisted : ((start settings acme store).run as).contentAt k ≠ none) (copy : Option Texts) :
    let log := (start settings acme store).publications k (as ++ [.publish])
    log.foldl (Publication.follow m) copy =
        ((start settings acme store).run (as ++ [.publish])).contentAt k ↔
      ¬Publication.Missed m log := by
  intro log
  have hfeeds : (start settings acme store).Feeds m k :=
    ⟨hstore, Lister.indexed_empty, hkey, hdiff⟩
  have hstart : (start settings acme store).Matches m k [] [] none := ⟨rfl, fun _ => rfl⟩
  have hall : ∀ a ∈ as ++ [Action.publish], a.Spares k := by
    intro a ha
    rcases List.mem_append.1 ha with ha | ha
    · exact has a ha
    · obtain rfl := List.mem_singleton.1 ha
      trivial
  have hchained : Publication.Chained m none none log := hstart.chained hfeeds hk hall
  have hlast : Publication.lastHeld none log =
      ((start settings acme store).run as).contentAt k := by
    show Publication.lastHeld none ((start settings acme store).publications k _) = _
    rw [publications_append]
    exact Publication.lastHeld_append _ _ _ []
  have hrun : ((start settings acme store).run (as ++ [.publish])).contentAt k =
      ((start settings acme store).run as).contentAt k := by
    rw [run_append]
    rfl
  rw [hrun, ← hlast]
  refine Publication.foldl_follow_eq_lastHeld_iff hchained ?_ copy
  rw [hlast]
  exact hlisted

def tracking (global tcp : Key) : Controller :=
  start { Settings.default with
    globalConfigMap := some global.path
    tcpConfigMap := some tcp.path } Settings.default.acmeKeys (.files .empty)

def entryMap (k : Key) (value : String) : ConfigMap :=
  ⟨.ofKey k, some (Dict.empty.insert "entry" value)⟩

def changeOver (k : Key) : List Action :=
  [.observe .configMap (.apply (entryMap k "A")), .publish,
    .observe .configMap (.apply (entryMap k "B"))]

theorem spares_of_mem_changeOver {k : Key} (hk : k.Qualified) :
    ∀ a ∈ changeOver k, a.Spares k := by
  have hnamed : ∀ value, Named (entryMap k value) := fun _ => .of_metadata rfl hk
  simp [changeOver, Action.Spares, WatchEvent.object?, hnamed]

theorem copy_eq_content_of_changeOver :
    let k : Key := ⟨"ingress", "tcp"⟩
    let c := tracking ⟨"ingress", "global"⟩ k
    (c.publications k (changeOver k ++ [.publish])).foldl (Publication.follow .tcp) none =
      (c.run (changeOver k ++ [.publish])).contentAt k := by
  intro k c
  have hk : k.Qualified := by decide
  have hlisted : (c.run (changeOver k)).contentAt k ≠ none := by decide +kernel
  have hpartial : ∀ x ∈ c.publications k (changeOver k ++ [.publish]),
      x.snapshot.fullSync = false := by decide +kernel
  refine (copy_eq_content_iff_not_missed _ _ (fun _ => rfl) hk rfl (by decide)
    (spares_of_mem_changeOver hk) hlisted none).2 ?_
  rintro ⟨before, x, after, hlog, hfull, -⟩
  have hx := hpartial x (hlog ▸ List.mem_append_right before List.mem_cons_self)
  rw [hfull] at hx
  cases hx

/-- A config map is applied and published, listed with other content and published, and applied
again as it was at first. -/
def changeBack (k : Key) : List Action :=
  [.observe .configMap (.apply (entryMap k "A")), .publish,
    .observe .configMap .init, .observe .configMap (.initApply (entryMap k "B")),
    .observe .configMap .initDone, .publish,
    .observe .configMap (.apply (entryMap k "A"))]

theorem copy_ne_content_of_changeBack :
    let k : Key := ⟨"ingress", "global"⟩
    let c := tracking k ⟨"ingress", "tcp"⟩
    (c.publications k (changeBack k ++ [.publish])).foldl (Publication.follow .global) none =
        some (entryMap k "B").content ∧
      (c.run (changeBack k ++ [.publish])).contentAt k = some (entryMap k "A").content ∧
      (entryMap k "B").content ≠ (entryMap k "A").content := by
  decide +kernel

end Controller

end IngressCache
