import IngressCache.Proofs.Acme.TokenCalls
import Mathlib.Data.List.Induction

/-!
# The store of tokens

The config map of tokens as a store: a call puts the token of a domain, and an enquiry for a domain
and an address reads it. While every write comes back to the lister before the next call, an enquiry
finds what the last call for its domain put, whatever the texts are. The entries of other domains,
and what else the map says about itself, stay as they were.
-/

namespace IngressCache

/-! ### Entries -/

/-- An entry is read from the left, so neither text of it is read as a part of the other one. -/
theorem AcmeKeys.tokenOf_entry (uri token : String) :
    tokenOf uri (uri ++ "=" ++ token) = some token := by
  have hrest : (uri.toList ++ ['=']).isPrefixOf? (uri ++ "=" ++ token).toList =
      some token.toList := by
    rw [List.isPrefixOf?_eq_some_iff_append_eq]
    simp [String.toList_append]
  rw [tokenOf, hrest, Option.map_some, String.ofList_toList]

namespace Token

/-- The last of some calls for a domain. -/
def lastFor? (domain : String) (ts : List Token) : Option Token :=
  (ts.filter (·.domain = domain)).getLast?

theorem lastFor?_concat (domain : String) (ts : List Token) (t : Token) :
    lastFor? domain (ts ++ [t]) = if t.domain = domain then some t else lastFor? domain ts := by
  unfold lastFor?
  rw [List.filter_append, List.filter_singleton]
  by_cases h : t.domain = domain
  · simp [h]
  · simp [h]

theorem lastFor?_eq_none_iff (domain : String) (ts : List Token) :
    lastFor? domain ts = none ↔ ∀ t ∈ ts, t.domain ≠ domain := by
  simp [lastFor?]

/-- After some calls an entry is that of the last call for its domain. -/
theorem get?_foldl_put (entries : Texts) (ts : List Token) (domain : String) :
    (ts.foldl put entries).get? domain =
      ((lastFor? domain ts).map entry?).getD (entries.get? domain) := by
  induction ts using List.reverseRecOn with
  | nil => rfl
  | append_singleton ts t ih =>
    rw [List.foldl_concat, lastFor?_concat]
    by_cases h : t.domain = domain
    · subst h
      rw [get?_put_self, if_pos rfl]
      rfl
    · rw [get?_put_of_ne _ _ (Ne.symm h), if_neg h, ih]

end Token

/-! ### Enquiries -/

namespace AcmeKeys

variable {a : AcmeKeys}

theorem token_of_slash (hns : '/' ∈ a.tokens.ns.toList) (maps : Lister ConfigMap)
    (domain uri : String) : a.token maps domain uri = "" := by
  obtain ⟨f, hf⟩ := Key.parse_text_of_slash hns
  rw [token, Lister.lookup, Key.require, hf]
  rfl

theorem token_eq (ha : a.tokens.Legible) (maps : Lister ConfigMap) (domain uri : String) :
    a.token maps domain uri =
      (((contentOf (maps.find? a.tokens)).get? domain).bind (tokenOf uri)).getD "" := by
  unfold token
  rw [maps.lookup_text ha]
  cases maps.find? a.tokens <;> rfl

end AcmeKeys

/-! ### Calls one after the other -/

/-- A call, the version that the server gives the map that it takes, and what the watch brings
until the next call. -/
structure TokenTurn where
  token : Token
  version : Option String
  watch : List (WatchEvent ConfigMap)

/-- What a map says about itself, its version apart. -/
def Metadata.unversioned (m : Metadata) : Metadata :=
  { m with version := none }

namespace AcmeKeys

variable {a : AcmeKeys}

/-- The map that the server has when it has taken the write of a call. -/
def written (a : AcmeKeys) (maps : Lister ConfigMap) (turn : TokenTurn) : ConfigMap :=
  withVersion (Write.plan maps
    (a.withToken maps turn.token.domain turn.token.uri turn.token.token)).object turn.version

/-- The lister at the next call, if the written map has reached it by then. -/
def turn? (a : AcmeKeys) (maps : Lister ConfigMap) (turn : TokenTurn) : Option (Lister ConfigMap) :=
  let maps' := turn.watch.foldl Lister.step maps
  if maps'.find? a.tokens = some (a.written maps turn) then some maps' else none

theorem written_eq (ha : a.tokens.Legible) (maps : Lister ConfigMap) (turn : TokenTurn) :
    a.written maps turn = match maps.find? a.tokens with
      | some m => withVersion { m with data := some (turn.token.put m.content) } turn.version
      | none => withVersion ⟨.ofKey a.tokens, some (turn.token.put .empty)⟩ turn.version := by
  have hplan : ∀ o : ConfigMap, withVersion (Write.plan maps o).object turn.version =
      withVersion o turn.version := by
    intro o
    unfold Write.plan
    split <;> rfl
  rw [written, hplan, withToken_eq ha]
  cases maps.find? a.tokens <;> rfl

/-- A call puts its own entry. -/
theorem content_written (ha : a.tokens.Legible) (maps : Lister ConfigMap) (turn : TokenTurn) :
    (a.written maps turn).content = turn.token.put (contentOf (maps.find? a.tokens)) := by
  rw [written_eq ha]
  cases maps.find? a.tokens <;> rfl

theorem unversioned_written (ha : a.tokens.Legible) {maps : Lister ConfigMap} {m : ConfigMap}
    (hm : maps.find? a.tokens = some m) (turn : TokenTurn) :
    (a.written maps turn).metadata.unversioned = m.metadata.unversioned := by
  rw [written_eq ha, hm]
  rfl

theorem find?_of_turn? {maps maps' : Lister ConfigMap} {turn : TokenTurn}
    (h : a.turn? maps turn = some maps') : maps'.find? a.tokens = some (a.written maps turn) := by
  obtain ⟨hfind, h⟩ := Option.ite_none_right_eq_some.1 h
  rw [← Option.some.inj h]
  exact hfind

theorem content_run (ha : a.tokens.Legible) {maps maps' : Lister ConfigMap}
    {turns : List TokenTurn} (hrun : turns.foldlM a.turn? maps = some maps') :
    contentOf (maps'.find? a.tokens) =
      (turns.map TokenTurn.token).foldl Token.put (contentOf (maps.find? a.tokens)) := by
  induction turns generalizing maps with
  | nil =>
    obtain rfl := Option.some.inj hrun
    rfl
  | cons turn turns ih =>
    obtain ⟨next, hnext, hrun⟩ := foldlM_cons_eq_some hrun
    rw [ih hrun, find?_of_turn? hnext, List.map_cons, List.foldl_cons, ← content_written ha]
    rfl

theorem unversioned_run (ha : a.tokens.Legible) {maps maps' : Lister ConfigMap}
    {turns : List TokenTurn} (hrun : turns.foldlM a.turn? maps = some maps') {m : ConfigMap}
    (hm : maps.find? a.tokens = some m) :
    ∃ m', maps'.find? a.tokens = some m' ∧ m'.metadata.unversioned = m.metadata.unversioned := by
  refine foldlM_preserves
    (P := fun maps' => ∃ m', maps'.find? a.tokens = some m' ∧
      m'.metadata.unversioned = m.metadata.unversioned) ?_ hrun ⟨m, hm, rfl⟩
  rintro maps turn next hnext ⟨m', hm', heq⟩
  exact ⟨_, find?_of_turn? hnext, (unversioned_written ha hm' turn).trans heq⟩

end AcmeKeys

/-! ### Writes that come back by themselves -/

/-- An object that is applied is found where one of its identity was found before. -/
theorem Lister.find?_step_apply_of_found {α : Type} [ClusterObject α] {l : Lister α}
    (hl : l.Tidy) {k : Key} {o p : α} (hp : l.find? k = some p)
    (ho : identity o = identity p) : (l.step (.apply o)).find? k = some o := by
  unfold find? get? at *
  cases hown : l.stored? k.identity with
  | some q =>
    rw [hown] at hp
    obtain rfl := Option.some.inj hp
    rw [← (hl.objects _ _ hown).1, ← ho, stored?_step_apply_self]
    rfl
  | none =>
    rw [hown] at hp
    -- The object without a namespace: its step leaves the place of the key as it is.
    have hi : identity o = { k.identity with ns := none } := ho.trans (hl.objects _ _ hp).1
    have hne : k.identity ≠ identity o := by
      rw [hi]
      exact fun he => nomatch congrArg Identity.ns he
    rw [stored?_step_apply_ne l hne, hown, ← hi, stored?_step_apply_self]
    rfl

namespace AcmeKeys

variable {a : AcmeKeys}

theorem turn?_apply (ha : a.tokens.Legible) {maps : Lister ConfigMap}
    (hmaps : maps.Tidy) (t : Token) (version : Option String) :
    let w := a.written maps ⟨t, version, []⟩
    a.turn? maps ⟨t, version, [.apply w]⟩ = some (maps.step (.apply w)) := by
  intro w
  refine if_pos ?_
  show (maps.step (.apply w)).find? a.tokens = some w
  cases hfound : maps.find? a.tokens with
  | some m =>
    refine Lister.find?_step_apply_of_found hmaps hfound ?_
    rw [show w = _ from written_eq ha maps _, hfound]
    rfl
  | none =>
    have hw : identity w = a.tokens.identity := by
      rw [show w = _ from written_eq ha maps _, hfound]
      rfl
    unfold Lister.find? Lister.get?
    rw [← hw, Lister.stored?_step_apply_self]
    rfl

/-- The turns of calls whose writes the watch brings at once. -/
def promptTurns (a : AcmeKeys) (maps : Lister ConfigMap) :
    List (Token × Option String) → List TokenTurn
  | [] => []
  | (t, version) :: ts =>
    let w := a.written maps ⟨t, version, []⟩
    ⟨t, version, [.apply w]⟩ :: promptTurns a (maps.step (.apply w)) ts

theorem token_promptTurns (maps : Lister ConfigMap) (ts : List (Token × Option String)) :
    (a.promptTurns maps ts).map TokenTurn.token = ts.map Prod.fst := by
  induction ts generalizing maps with
  | nil => rfl
  | cons t ts ih => rw [promptTurns, List.map_cons, ih, List.map_cons]

/-- Whatever the calls are, they can follow one another in this way. -/
theorem exists_run_promptTurns (ha : a.tokens.Legible) {maps : Lister ConfigMap}
    (hmaps : maps.Tidy) (ts : List (Token × Option String)) :
    ∃ maps', (a.promptTurns maps ts).foldlM a.turn? maps = some maps' := by
  induction ts generalizing maps with
  | nil => exact ⟨maps, rfl⟩
  | cons t ts ih =>
    obtain ⟨maps', hrun⟩ := ih (hmaps.step _)
    exact ⟨maps', (foldlM_cons_of_some (turn?_apply ha hmaps t.1 t.2) _).trans hrun⟩

/-- A session whose writes come back takes a turn with each token that it sets. -/
theorem turn?_of_setToken {s : Session} (hs : s.Prompt) (ha : a.tokens.Legible)
    (hmaps : s.controller.listers.configMaps.Tidy) (t : Token)
    (hdone : (s.acmeStep a (.setToken t.domain t.uri t.token)).2 = .done) :
    ∃ turn : TokenTurn, turn.token = t ∧ a.turn? s.controller.listers.configMaps turn =
      some (s.acmeStep a (.setToken t.domain t.uri t.token)).1.controller.listers.configMaps := by
  let o := a.withToken s.controller.listers.configMaps t.domain t.uri t.token
  let w := Write.plan s.controller.listers.configMaps o
  simp only [Session.acmeStep] at hdone ⊢
  cases hsend : (Request.configMap w).isSendable with
  | true =>
    have hafter : (s.putConfigMap o).1.controller.listers.configMaps =
        s.controller.listers.configMaps.step (.apply w.object) :=
      congrArg Listers.configMaps (hs.write hsend).2
    refine ⟨⟨t, version? w.object, [.apply w.object]⟩, rfl, ?_⟩
    rw [hafter]
    exact turn?_apply ha hmaps t (version? w.object)
  | false =>
    have hput : s.putConfigMap o = _ := Session.write_of_not_sendable s hsend
    rw [hput] at hdone
    cases hdone

/-! ### What an enquiry answers -/

/-- After calls that each found the write of the one before, an enquiry for the domain and the
address of the last call for that domain answers its token, and after one that took the token back
it answers nothing for any address. The entries of all other domains are those at the start, and so
is what the map says about itself, its version apart. A session whose writes come back at once makes
such calls: with a token that it sets it takes one more turn. -/
theorem token_eq_last {settings : Settings} {a : AcmeKeys} (ha : settings.acmeKeys = .ok a)
    (hns : '/' ∉ a.tokens.ns.toList) {maps maps' : Lister ConfigMap} {turns : List TokenTurn}
    (hrun : turns.foldlM a.turn? maps = some maps') :
    let ts := turns.map TokenTurn.token
    (∀ domain uri token, token ≠ "" → Token.lastFor? domain ts = some ⟨domain, uri, token⟩ →
        a.token maps' domain uri = token) ∧
      (∀ domain uri, Token.lastFor? domain ts = some ⟨domain, uri, ""⟩ →
        ∀ u, a.token maps' domain u = "") ∧
      (∀ domain, (∀ t ∈ ts, t.domain ≠ domain) →
        (contentOf (maps'.find? a.tokens)).get? domain =
          (contentOf (maps.find? a.tokens)).get? domain) ∧
      (∀ m, maps.find? a.tokens = some m → ∃ m', maps'.find? a.tokens = some m' ∧
        m'.metadata.unversioned = m.metadata.unversioned) ∧
      ∀ (s : Session) (t : Token), s.Prompt → s.controller.listers.configMaps = maps' →
        maps'.Tidy → (s.acmeStep a (.setToken t.domain t.uri t.token)).2 = .done →
        ∃ turn : TokenTurn, turn.token = t ∧ a.turn? maps' turn =
          some (s.acmeStep a (.setToken t.domain t.uri t.token)).1.controller.listers.configMaps := by
  intro ts
  have hlegible := legible_tokens ha hns
  have hentry : ∀ domain, (contentOf (maps'.find? a.tokens)).get? domain =
      ((Token.lastFor? domain ts).map Token.entry?).getD
        ((contentOf (maps.find? a.tokens)).get? domain) := by
    intro domain
    rw [content_run hlegible hrun]
    exact Token.get?_foldl_put _ ts domain
  refine ⟨fun domain uri token hne hlast => ?_, fun domain uri hlast u => ?_,
    fun domain hnever => ?_, fun m hm => unversioned_run hlegible hrun hm,
    fun s t hs hmaps htidy hdone => ?_⟩
  · have hput : Token.entry? ⟨domain, uri, token⟩ = some (uri ++ "=" ++ token) := if_neg hne
    rw [token_eq hlegible, hentry, hlast, Option.map_some, hput]
    simp [tokenOf_entry]
  · rw [token_eq hlegible, hentry, hlast]
    rfl
  · rw [hentry, (Token.lastFor?_eq_none_iff domain ts).2 hnever]
    rfl
  · subst hmaps
    exact turn?_of_setToken hs hlegible htidy t hdone

/-- Texts that contain the sign between address and token, an empty address, and a token that is
taken back. The map has an entry and a label of its own. -/
theorem token_eq_last_of_challenges :
    let m : ConfigMap :=
      ⟨{ Metadata.ofKey ⟨"default", "acme-validation-tokens"⟩ with
          labels := some (Dict.empty.insert "app" "web") },
        some (Dict.empty.insert "old.example.com" "/x=y")⟩
    let ts : List Token :=
      [⟨"a.example.com", "/c", "one"⟩, ⟨"b.example.com", "", "b=/two"⟩,
        ⟨"a.example.com", "/c=d", "=e"⟩, ⟨"c.example.com", "/c", "three"⟩,
        ⟨"c.example.com", "/c", ""⟩]
    ∃ (a : AcmeKeys) (maps' : Lister ConfigMap) (turns : List TokenTurn) (m' : ConfigMap),
      Settings.default.acmeKeys = .ok a ∧ '/' ∉ a.tokens.ns.toList ∧
      turns.map TokenTurn.token = ts ∧
      turns.foldlM a.turn? (Lister.empty.step (.apply m)) = some maps' ∧
      a.token maps' "a.example.com" "/c=d" = "=e" ∧ a.token maps' "b.example.com" "" = "b=/two" ∧
      a.token maps' "c.example.com" "/c" = "" ∧ maps'.find? a.tokens = some m' ∧
      m'.content.get? "old.example.com" = some "/x=y" ∧ m'.metadata.labels = m.metadata.labels := by
  intro m ts
  let a : AcmeKeys :=
    ⟨⟨"default", "acme-private-key"⟩, ⟨"default", "acme-validation-tokens"⟩, "default"⟩
  have ha : Settings.default.acmeKeys = .ok a := by decide
  have hns : '/' ∉ a.tokens.ns.toList := by decide
  have hmaps : (Lister.empty.step (.apply m)).Tidy :=
    (Lister.keeps_empty _).step fun _ _ => trivial
  let versioned : List (Token × Option String) := ts.map fun t => (t, some "2")
  obtain ⟨maps', hrun⟩ := exists_run_promptTurns (legible_tokens ha hns) hmaps versioned
  have hts : (a.promptTurns (Lister.empty.step (.apply m)) versioned).map TokenTurn.token = ts :=
    token_promptTurns _ versioned
  obtain ⟨hset, hback, hother, hmeta, -⟩ := token_eq_last ha hns hrun
  rw [hts] at hset hback hother
  have hfound : (Lister.empty.step (.apply m)).find? a.tokens = some m := by decide
  obtain ⟨m', hm', hsame⟩ := hmeta m hfound
  have hlabels : m'.metadata.unversioned.labels = m.metadata.unversioned.labels :=
    congrArg Metadata.labels hsame
  have hold := hother "old.example.com" (by decide)
  rw [hm', hfound] at hold
  exact ⟨a, maps', _, m', ha, hns, hts, hrun, hset _ _ _ (by decide) (by decide),
    hset _ _ _ (by decide) (by decide), hback "c.example.com" "/c" (by decide) "/c", hm', hold,
    hlabels⟩

end AcmeKeys

end IngressCache
