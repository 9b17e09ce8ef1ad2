import IngressCache.Proofs.Material.Following

/-!
# What failures leave behind

The files of a secret are written one after the other, and those before the first that cannot be
written stay. A question for material that fails takes none of them back. A refresh that fails
drops the secret with the files of its old version, which need not be the files that it has just
written.
-/

namespace IngressCache

namespace Directory

/-! ### Writing and removing one file -/

theorem write_of_not_accepts {d : Directory} {name : String} (h : ¬d.Accepts name)
    (content : Bytes) : ∃ f, d.write name content = .error f := by
  unfold write
  cases hf : d.nameFault? name with
  | some f => exact ⟨f, rfl⟩
  | none =>
    have hfolder : d.get? name = some .folder := by
      by_contra hne
      exact h ⟨(nameFault?_eq_none_iff d name).1 hf, hne⟩
    simp only [hfolder]
    exact ⟨.isADirectory, rfl⟩

/-- A file that the controller could take away. -/
def Removable (d : Directory) (name : String) : Prop :=
  ∃ d', d.remove name = .ok d'

theorem removable_iff {d : Directory} {name : String} :
    d.Removable name ↔ IsFileName name ∧ ∃ content mode, d.get? name = some (.file content mode) := by
  unfold Removable remove
  rw [← nameFault?_eq_none_iff d name]
  cases d.nameFault? name with
  | some f => simp
  | none =>
    cases d.get? name with
    | none => simp
    | some n => cases n <;> simp

instance (d : Directory) (name : String) : Decidable (d.Removable name) :=
  match h : d.remove name with
  | .ok d' => isTrue ⟨d', h⟩
  | .error _ => isFalse fun ⟨_, he⟩ => by cases h.symm.trans he

theorem accepts_insert_iff {d : Directory} {g : String} (hg : d.Accepts g) (content : Bytes)
    (mode : Nat) (f : String) :
    Accepts (d.insert g (.file content mode)) f ↔ d.Accepts f := by
  refine ⟨fun h => ?_, fun h => h.insert g content mode⟩
  by_cases hf : f = g
  · rw [hf]
    exact hg
  · refine ⟨h.1, ?_⟩
    rw [← Table.get?_insert_ne hf d (.file content mode)]
    exact h.2

theorem removable_insert {d : Directory} {g : String} (hg : IsFileName g) (content : Bytes)
    (mode : Nat) (f : String) :
    Removable (d.insert g (.file content mode)) f ↔ f = g ∨ d.Removable f := by
  rw [removable_iff, removable_iff, Table.get?_insert]
  by_cases hf : f = g
  · rw [if_pos hf, hf]
    exact ⟨fun _ => .inl rfl, fun _ => ⟨hg, content, mode, rfl⟩⟩
  · rw [if_neg hf]
    exact ⟨.inr, fun h => h.resolve_left hf⟩

theorem removable_erase {d : Directory} (g f : String) :
    Removable (d.erase g) f ↔ d.Removable f ∧ f ≠ g := by
  rw [removable_iff, removable_iff, Table.get?_erase]
  by_cases hf : f = g
  · simp [hf]
  · simp [hf]

end Directory

namespace CertStore
open Directory

/-! ### Writing and removing several files -/

/-- The parts before the first that cannot be written. -/
def writable (d : Directory) (ps : List Part) : List Part :=
  ps.takeWhile (d.Accepts ·.file)

theorem writable_insert {d : Directory} {p : Part} (hp : d.Accepts p.file) (ps : List Part) :
    writable (d.insert p.file (.file p.content privateMode)) ps = writable d ps := by
  unfold writable
  simp only [accepts_insert_iff hp]

theorem writeParts_cons_of_accepts {d : Directory} {p : Part} (hp : d.Accepts p.file)
    (ps : List Part) :
    writeParts d (p :: ps) = writeParts (d.insert p.file (.file p.content privateMode)) ps := by
  rw [writeParts, write_of_accepts hp]

theorem writeParts_cons_of_not_accepts {d : Directory} {p : Part} (hp : ¬d.Accepts p.file)
    (ps : List Part) : (writeParts d (p :: ps)).1 = d := by
  obtain ⟨f, hf⟩ := write_of_not_accepts hp p.content
  rw [writeParts, hf]

theorem writeParts_get?_of_writable {d : Directory} {ps : List Part}
    (hn : (ps.map Part.file).Nodup) {p : Part} (hp : p ∈ writable d ps) :
    (writeParts d ps).1.get? p.file = some (.file p.content privateMode) := by
  induction ps generalizing d with
  | nil => cases hp
  | cons q ps ih =>
    rw [List.map_cons, List.nodup_cons] at hn
    by_cases hq : d.Accepts q.file
    · rw [writable, List.takeWhile_cons_of_pos (by simpa using hq)] at hp
      rw [writeParts_cons_of_accepts hq]
      rcases List.mem_cons.1 hp with rfl | hp
      · rw [writeParts_get?_of_not_mem _ _ hn.1, Table.get?_insert_self]
      · rw [← writable, ← writable_insert hq] at hp
        exact ih hn.2 hp
    · rw [writable, List.takeWhile_cons_of_neg (by simpa using hq)] at hp
      cases hp

theorem writable_of_none {d : Directory} {ps : List Part} (h : (writeParts d ps).2 = none) :
    writable d ps = ps := by
  induction ps generalizing d with
  | nil => rfl
  | cons p ps ih =>
    by_cases hp : d.Accepts p.file
    · rw [writeParts_cons_of_accepts hp] at h
      have hrest := ih h
      rw [writable_insert hp] at hrest
      rw [writable, List.takeWhile_cons_of_pos (by simpa using hp)]
      exact congrArg (List.cons p) hrest
    · obtain ⟨f, hf⟩ := write_of_not_accepts hp p.content
      rw [writeParts, hf] at h
      cases h

theorem writeParts_get?_of_none {d : Directory} {ps : List Part}
    (h : (writeParts d ps).2 = none) (hn : (ps.map Part.file).Nodup) {p : Part} (hp : p ∈ ps) :
    (writeParts d ps).1.get? p.file = some (.file p.content privateMode) :=
  writeParts_get?_of_writable hn ((writable_of_none h).symm ▸ hp)

theorem writeParts_get?_of_not_writable {d : Directory} {ps : List Part} {f : String}
    (hf : f ∉ (writable d ps).map Part.file) : (writeParts d ps).1.get? f = d.get? f := by
  induction ps generalizing d with
  | nil => rfl
  | cons q ps ih =>
    by_cases hq : d.Accepts q.file
    · rw [writable, List.takeWhile_cons_of_pos (by simpa using hq), ← writable,
        ← writable_insert hq, List.map_cons, List.mem_cons, not_or] at hf
      rw [writeParts_cons_of_accepts hq, ih hf.2, Table.get?_insert_ne hf.1]
    · rw [writeParts_cons_of_not_accepts hq]

theorem writeParts_same_iff {d : Directory} {ps : List Part} (hn : (ps.map Part.file).Nodup) :
    (∀ f, (writeParts d ps).1.get? f = d.get? f) ↔
      ∀ p ∈ writable d ps, d.get? p.file = some (.file p.content privateMode) := by
  constructor
  · intro h p hp
    rw [← h p.file]
    exact writeParts_get?_of_writable hn hp
  · intro h f
    by_cases hf : f ∈ (writable d ps).map Part.file
    · obtain ⟨p, hp, rfl⟩ := List.mem_map.1 hf
      rw [h p hp]
      exact writeParts_get?_of_writable hn hp
    · exact writeParts_get?_of_not_writable hf

theorem removable_writeParts (d : Directory) (ps : List Part) (f : String) :
    (writeParts d ps).1.Removable f ↔ d.Removable f ∨ f ∈ (writable d ps).map Part.file := by
  induction ps generalizing d with
  | nil => simp [writeParts, writable]
  | cons q ps ih =>
    by_cases hq : d.Accepts q.file
    · rw [writeParts_cons_of_accepts hq, ih, removable_insert hq.1, writable_insert hq,
        writable, writable, List.takeWhile_cons_of_pos (by simpa using hq), List.map_cons,
        List.mem_cons, or_assoc, or_left_comm]
    · rw [writeParts_cons_of_not_accepts hq, writable,
        List.takeWhile_cons_of_neg (by simpa using hq)]
      simp

theorem removable_removeFiles (d : Directory) (fs : List String) (f : String) :
    (removeFiles d fs).1.Removable f ↔ d.Removable f ∧ f ∉ fs := by
  induction fs generalizing d with
  | nil => simp [removeFiles]
  | cons g fs ih =>
    -- A file that cannot be removed was not removable, so nothing is lost where the removal fails.
    have hkept : ∀ cause, d.remove g = .error cause →
        (d.Removable f ∧ f ∉ fs ↔ d.Removable f ∧ f ∉ g :: fs) := by
      intro cause hcause
      have hne : d.Removable f → f ≠ g := by
        rintro ⟨d', hd'⟩ rfl
        cases hcause.symm.trans hd'
      rw [List.mem_cons, not_or]
      exact ⟨fun h => ⟨h.1, hne h.1, h.2⟩, fun h => ⟨h.1, h.2.2⟩⟩
    unfold removeFiles
    split
    · rename_i d' hr
      rw [ih, eq_erase_of_remove hr, removable_erase, List.mem_cons, not_or, and_assoc]
    · rename_i hr
      rw [ih]
      exact hkept _ hr
    · rename_i cause _ hr
      rw [ih]
      exact hkept _ hr

theorem removal_of_mem_removeFiles {d : Directory} {fs : List String} {w : Warning}
    (hw : w ∈ (removeFiles d fs).2) : ∃ f cause, w = .removal f cause := by
  induction fs generalizing d with
  | nil => cases hw
  | cons g fs ih =>
    unfold removeFiles at hw
    split at hw
    · exact ih hw
    · exact ih hw
    · rename_i cause _ _
      rcases List.mem_cons.1 hw with rfl | hw
      · exact ⟨g, cause, rfl⟩
      · exact ih hw

/-! ### Failures -/

/-- The files that a rendering asks for: none where it fails. -/
def partsOf : Except Failure Rendering → List Part
  | .ok r => r.parts
  | .error _ => []

/-- What an attempt on a secret writes, up to its first fault. -/
def written (secrets : Lister Secret) (d : Directory) (k : Key) : List Part :=
  writable d (partsOf (rendering secrets k))

theorem partsOf_nodup (secrets : Lister Secret) (k : Key) :
    ((partsOf (rendering secrets k)).map Part.file).Nodup := by
  cases hr : rendering secrets k with
  | error f => exact List.nodup_nil
  | ok r => exact (rendering_of hr).files_nodup

theorem certificate_of_failed {secrets : Lister Secret} {st : CertStore} {k : Key} {f : Failure}
    (h : (certificate secrets st k).2 = .error f) :
    (certificate secrets st k).1 =
      ⟨(writeParts st.directory (partsOf (rendering secrets k))).1, st.cached⟩ := by
  have hcase := asked secrets st k
  generalize certificate secrets st k = x at hcase h ⊢
  cases hcase with
  | known m hm => cases h
  | unrendered hm f hr => rw [hr]; rfl
  | written hm r hr hw => cases h
  | unwritten hm r hr f hw => rw [hr]; rfl

theorem not_refresh_of_mem_evict {st : CertStore} {t t' : String} {f : Failure} :
    .refresh t' f ∉ (st.evict t).2 := by
  unfold evict
  split
  · exact List.not_mem_nil
  · intro hmem
    obtain ⟨_, _, he⟩ := removal_of_mem_removeFiles hmem
    cases he

/-- A refresh that fails drops the secret, after it has written what it could. -/
theorem refresh_of_failed {secrets : Lister Secret} {st : CertStore} {t t' : String} {f : Failure}
    (h : .refresh t' f ∈ (st.refresh secrets t).2) :
    t' = t ∧ ∃ m, st.cached.get? t = some m ∧
      (st.refresh secrets t).1 = (evict
        ⟨(writeParts st.directory (partsOf (renderingOf secrets t))).1, st.cached⟩ t).1 := by
  unfold refresh rerender at h ⊢
  cases hm : st.cached.get? t with
  | none =>
    rw [hm] at h
    cases h
  | some m =>
    rw [hm] at h
    simp only at h ⊢
    cases hr : renderingOf secrets t with
    | error f' =>
      have hb : (Key.require t).bind (rendering secrets) = .error f' := hr
      rw [hb] at h ⊢
      have ht := (List.mem_cons.1 h).resolve_right not_refresh_of_mem_evict
      obtain ⟨rfl, -⟩ := Warning.refresh.inj ht
      exact ⟨rfl, m, rfl, rfl⟩
    | ok r =>
      have hb : (Key.require t).bind (rendering secrets) = .ok r := hr
      rw [hb] at h ⊢
      by_cases he : r.material = m
      · simp only [if_pos he] at h
        cases h
      · simp only [if_neg he] at h ⊢
        cases hw : (writeParts st.directory r.parts).2 with
        | none =>
          rw [writeRendering_of_none hw] at h
          obtain ⟨_, _, hremoval⟩ := removal_of_mem_removeFiles h
          cases hremoval
        | some fault =>
          rw [writeRendering_of_some hw] at h ⊢
          have ht := (List.mem_cons.1 h).resolve_right not_refresh_of_mem_evict
          obtain ⟨rfl, -⟩ := Warning.refresh.inj ht
          exact ⟨rfl, m, rfl, rfl⟩

theorem reconcile_of_failed {secrets : Lister Secret} {st : CertStore} {t t' : String}
    {f : Failure} (h : .refresh t' f ∈ (st.reconcile secrets t).2) :
    st.reconcile secrets t = st.refresh secrets t := by
  rcases reconcile_eq secrets st t with he | he
  · exact he
  · rw [he] at h
    exact absurd h not_refresh_of_mem_evict

/-- Each report of a reconciliation is made at the visit to one secret. -/
theorem mem_reconcileAll {secrets : Lister Secret} {st : CertStore} {ts : List String}
    {w : Warning} (h : w ∈ (st.reconcileAll secrets ts).2) :
    ∃ before t after, ts = before ++ t :: after ∧
      w ∈ ((st.reconcileAll secrets before).1.reconcile secrets t).2 := by
  induction ts generalizing st with
  | nil => cases h
  | cons t ts ih =>
    rcases List.mem_append.1 h with h | h
    · exact ⟨[], t, ts, rfl, h⟩
    · obtain ⟨before, u, after, rfl, hu⟩ := ih h
      exact ⟨t :: before, u, after, rfl, hu⟩

/-! ### Visits -/

/-- The store when a call comes to that secret: those that are listed before it have had their
turn. -/
def whenVisited (secrets : Lister Secret) (st : CertStore) (t : String) : StoreCall → CertStore
  | .resync => (st.reconcileAll secrets (st.cached.keys.takeWhile (· ≠ t))).1
  | .update _ | .delete _ => st

theorem takeWhile_before {before after : List String} {t : String} (h : t ∉ before) :
    (before ++ t :: after).takeWhile (· ≠ t) = before := by
  have hall : ∀ u ∈ before, decide (u ≠ t) = true := by
    intro u hu
    exact decide_eq_true fun he => h (he ▸ hu)
  rw [List.takeWhile_append_of_pos hall, List.takeWhile_cons_of_neg (by simp), List.append_nil]

/-- A secret is refreshed once in a call, and what is known of it stays as that leaves it. -/
theorem follow_of_failed {secrets : Lister Secret} {st : CertStore} {call : StoreCall}
    {t : String} {f : Failure} (h : .refresh t f ∈ (st.follow secrets call).2) :
    .refresh t f ∈ ((st.whenVisited secrets t call).refresh secrets t).2 ∧
      (st.whenVisited secrets t call).cached.get? t = st.cached.get? t ∧
      (st.follow secrets call).1.cached.get? t =
        ((st.whenVisited secrets t call).refresh secrets t).1.cached.get? t := by
  cases call with
  | update t' =>
    obtain ⟨rfl, -⟩ := refresh_of_failed h
    exact ⟨h, rfl, rfl⟩
  | delete t' => exact absurd h not_refresh_of_mem_evict
  | resync =>
    obtain ⟨before, t', after, hkeys, hw⟩ := mem_reconcileAll h
    have hrefresh := reconcile_of_failed hw
    rw [hrefresh] at hw
    obtain ⟨rfl, -⟩ := refresh_of_failed hw
    have hnodup : (before ++ t :: after).Nodup := hkeys ▸ st.cached.nodup
    have hbefore : t ∉ before := fun hb =>
      (List.nodup_append.1 hnodup).2.2 _ hb _ List.mem_cons_self rfl
    have hafter : t ∉ after := (List.nodup_cons.1 (List.nodup_append.1 hnodup).2.1).1
    have hvisit : st.whenVisited secrets t .resync = (st.reconcileAll secrets before).1 := by
      rw [whenVisited, hkeys, takeWhile_before hbefore]
    rw [hvisit]
    refine ⟨hw, reconcileAll_cached_of_not_mem secrets st hbefore, ?_⟩
    rw [follow, resync, hkeys, reconcileAll_append, reconcileAll_cons, hrefresh]
    exact reconcileAll_cached_of_not_mem secrets _ hafter

theorem renderingOf_of_parse (secrets : Lister Secret) {t : String} {k : Key}
    (h : Key.parse t = .ok k) : renderingOf secrets t = rendering secrets k := by
  unfold renderingOf Key.require
  rw [h]
  rfl

/-- After a refresh that failed, the files of the old version are gone, as far as they can be
removed; what else there was stays, and what it has written. -/
theorem removable_of_failed {secrets : Lister Secret} {st : CertStore} {t : String} {f : Failure}
    (h : .refresh t f ∈ (st.refresh secrets t).2) :
    (st.refresh secrets t).1.cached.get? t = none ∧
      ∃ m, st.cached.get? t = some m ∧ ∀ k, Key.parse t = .ok k → ∀ g,
        (st.refresh secrets t).1.directory.Removable g ↔
          (st.directory.Removable g ∨ g ∈ (written secrets st.directory k).map Part.file) ∧
            g ∉ m.files := by
  obtain ⟨-, m, hm, hst⟩ := refresh_of_failed h
  rw [hst]
  refine ⟨by rw [evict_cached, if_pos rfl], m, hm, fun k hk g => ?_⟩
  rw [written, ← renderingOf_of_parse secrets hk, ← removable_writeParts, evict, hm]
  exact removable_removeFiles _ _ _

/-! ### Residue -/

/-- When a failure leaves nothing behind. A question that fails changes nothing exactly if the
files that it writes before the fault were there before, as they are now. After a refresh that
fails the secret is unknown, and its files are gone exactly if those there were, and those that
the refresh has written, are all files of the old version. -/
theorem no_residue_iff (secrets : Lister Secret) (st : CertStore) :
    (∀ k f, (certificate secrets st k).2 = .error f →
      (certificate secrets st k).1.cached = st.cached ∧
        ((∀ g, (certificate secrets st k).1.directory.get? g = st.directory.get? g) ↔
          ∀ p ∈ written secrets st.directory k,
            st.directory.get? p.file = some (.file p.content privateMode))) ∧
    ∀ call t f, .refresh t f ∈ (st.follow secrets call).2 →
      (st.follow secrets call).1.cached.get? t = none ∧
        ∃ m, st.cached.get? t = some m ∧ ∀ k, Key.parse t = .ok k →
          ((∀ g ∈ k.files,
              ¬((st.whenVisited secrets t call).refresh secrets t).1.directory.Removable g) ↔
            ∀ g ∈ k.files, (st.whenVisited secrets t call).directory.Removable g ∨
              g ∈ (written secrets (st.whenVisited secrets t call).directory k).map Part.file →
              g ∈ m.files) := by
  constructor
  · intro k f h
    rw [certificate_of_failed h]
    exact ⟨rfl, writeParts_same_iff (partsOf_nodup secrets k)⟩
  · intro call t f h
    obtain ⟨hvisit, hold, hcached⟩ := follow_of_failed h
    obtain ⟨hgone, m, hm, hfiles⟩ := removable_of_failed hvisit
    refine ⟨hcached.trans hgone, m, hold.symm.trans hm, fun k hk => ?_⟩
    have hleft := hfiles k hk
    refine forall₂_congr fun g _ => ?_
    rw [hleft g, not_and, not_not]

/-- The store after the secret was asked for when it had no data, with a folder in the place of one
of its files. -/
def obstructed (k : Key) (file : String) : CertStore :=
  (certificate (Lister.empty.step (.apply ⟨.ofKey k, none, none⟩))
    ⟨Table.empty.insert file .folder, .empty⟩ k).1

theorem no_residue_of_obstructed :
    let k : Key := ⟨"default", "ca"⟩
    let l : Lister Secret := Lister.empty.step (.apply (.ofAuthorities k [65] [66]))
    let before := obstructed k k.authoritiesFile
    let st := before.follow l (.update k.text)
    .refresh k.text (.io .isADirectory) ∈ st.2 ∧ st.1.cached.get? k.text = none ∧
      (∀ g ∈ k.files, ¬st.1.directory.Removable g) ∧
      (certificate l st.1 k).2 = .error (.io .isADirectory) ∧
      ∀ g, (certificate l st.1 k).1.directory.get? g = st.1.directory.get? g := by
  intro k l before st
  have hfailed : .refresh k.text (.io .isADirectory) ∈ st.2 := by decide +kernel
  have hasked : (certificate l st.1 k).2 = .error (.io .isADirectory) := by decide +kernel
  have hnothing : written l before.directory k = [] := by decide +kernel
  have hagain : written l st.1.directory k = [] := by decide +kernel
  have hempty : ∀ g ∈ k.files, ¬before.directory.Removable g := by decide +kernel
  have hk : Key.parse k.text = .ok k := Key.parse_text (by decide)
  obtain ⟨hgone, m, -, hleft⟩ := (no_residue_iff l before).2 _ _ _ hfailed
  refine ⟨hfailed, hgone, (hleft k hk).2 fun g hg h => ?_, hasked, ?_⟩
  · rcases h with h | h
    · exact absurd h (hempty g hg)
    · have hmem : g ∈ (written l before.directory k).map Part.file := h
      rw [hnothing] at hmem
      cases hmem
  · refine ((no_residue_iff l st.1).1 k _ hasked).2.2 fun p hp => ?_
    rw [hagain] at hp
    cases hp

/-- The authorities are written, the revocations cannot be: the refresh that fails leaves the
authorities, and so does the first question that fails. -/
theorem authorities_left_by_failure :
    let k : Key := ⟨"default", "ca"⟩
    let l : Lister Secret := Lister.empty.step (.apply (.ofAuthorities k [65] [66]))
    let before := obstructed k k.revocationsFile
    let st := before.follow l (.update k.text)
    let unknown : CertStore := ⟨before.directory, .empty⟩
    (∀ g ∈ k.files, ¬before.directory.Removable g) ∧
      .refresh k.text (.io .isADirectory) ∈ st.2 ∧
      st.1.directory.Removable k.authoritiesFile ∧
      (certificate l unknown k).2 = .error (.io .isADirectory) ∧
      (certificate l unknown k).1.directory.content? k.authoritiesFile = some [65] ∧
      unknown.directory.content? k.authoritiesFile = none := by
  intro k l before st unknown
  refine ⟨?_, ?_, ?_, ?_, ?_, ?_⟩
  all_goals decide +kernel

end CertStore

end IngressCache
