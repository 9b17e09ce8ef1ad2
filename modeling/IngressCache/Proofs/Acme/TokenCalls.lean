import IngressCache.Proofs.Object.Listed
import IngressCache.Proofs.Runs
import IngressCache.Proofs.Session.Requests
import Mathlib.Data.List.Nodup

/-!
# Calls for tokens

The tokens of all challenges are entries of one config map. A call copies the map that the lister
has, sets its own entry and sends the copy with the version of what it copied; meanwhile other
calls are under way, and the lister lags behind. The server takes a copy only in place of the map
that was copied, so a call that is accepted changes its own entry alone, and no token of another
one is lost.
-/

namespace IngressCache

/-! ### Tokens -/

/-- The token of a challenge, for a domain and an address. An empty one takes back what there was
before. -/
structure Token where
  domain : String
  uri : String
  token : String
  deriving DecidableEq

namespace Token

def entry? (t : Token) : Option String :=
  if t.token = "" then none else some (t.uri ++ "=" ++ t.token)

def put (entries : Texts) (t : Token) : Texts :=
  if t.token = "" then entries.erase t.domain
  else entries.insert t.domain (t.uri ++ "=" ++ t.token)

theorem get?_put_self (entries : Texts) (t : Token) : (put entries t).get? t.domain = t.entry? := by
  unfold put entry?
  split
  · exact Dict.get?_erase_self _ _
  · exact Dict.get?_insert_self _ _ _

theorem get?_put_of_ne (entries : Texts) (t : Token) {d : String} (h : d ≠ t.domain) :
    (put entries t).get? d = entries.get? d := by
  unfold put
  split
  · exact Dict.get?_erase_ne h _
  · exact Dict.get?_insert_ne h _ _

end Token

def contentOf (m : Option ConfigMap) : Texts :=
  (m.map ConfigMap.content).getD .empty

/-! ### One call -/

/-- The write of a call that finds this map in the lister. -/
def AcmeKeys.tokenWrite (a : AcmeKeys) (t : Token) : Option ConfigMap → Write ConfigMap
  | some m => .update { m with data := some (t.put m.content) }
  | none => .create ⟨.ofKey a.tokens, some (t.put .empty)⟩

theorem Lister.lookup_text {α : Type} [ClusterObject α] (l : Lister α) {k : Key} (hk : k.Legible) :
    l.lookup k.text = match l.find? k with
      | some o => .ok o
      | none => .error (.notFound (ClusterObject.kind α) k.text) := by
  unfold lookup
  rw [Key.require_text hk]
  rfl

theorem Write.plan_of_key {α : Type} [ClusterObject α] (l : Lister α) {o : α} {k : Key}
    (h : keyOf o = k) : plan l o = match l.find? k with
      | some known => .update (withVersion o (version? known))
      | none => .create o := by
  subst h
  rfl

theorem Settings.of_acmeKeys {settings : Settings} {a : AcmeKeys}
    (ha : settings.acmeKeys = .ok a) :
    settings.accountKey = .ok a.account ∧ settings.tokens = .ok a.tokens := by
  simp only [acmeKeys, bind, Except.bind] at ha
  cases haccount : settings.accountKey with
  | error f =>
    rw [haccount] at ha
    cases ha
  | ok account =>
    cases htokens : settings.tokens with
    | error f =>
      rw [haccount, htokens] at ha
      cases ha
    | ok tokens =>
      rw [haccount, htokens] at ha
      obtain rfl := Except.ok.inj ha
      exact ⟨rfl, rfl⟩

namespace AcmeKeys

/-- The key of the map is read back from its written form, if only its namespace is plain. -/
theorem legible_tokens {settings : Settings} {a : AcmeKeys} (ha : settings.acmeKeys = .ok a)
    (hns : '/' ∉ a.tokens.ns.toList) : a.tokens.Legible := by
  obtain ⟨hname, hne⟩ := Key.plain_of_parseIn (Settings.of_acmeKeys ha).2
  exact ⟨hns, hname, hne⟩

theorem withToken_eq {a : AcmeKeys} (ha : a.tokens.Legible) (maps : Lister ConfigMap)
    (t : Token) : a.withToken maps t.domain t.uri t.token = match maps.find? a.tokens with
      | some m => { m with data := some (t.put m.content) }
      | none => ⟨.ofKey a.tokens, some (t.put .empty)⟩ := by
  unfold withToken
  rw [maps.lookup_text ha]
  cases maps.find? a.tokens <;> rfl

/-- A call sends a copy of what it finds, in the version that it finds. -/
theorem plan_withToken {a : AcmeKeys} (ha : a.tokens.Legible) {maps : Lister ConfigMap}
    (hkey : ∀ m ∈ maps.find? a.tokens, keyOf m = a.tokens) (t : Token) :
    Write.plan maps (a.withToken maps t.domain t.uri t.token) =
      a.tokenWrite t (maps.find? a.tokens) := by
  have hwrite : keyOf (a.withToken maps t.domain t.uri t.token) = a.tokens := by
    rw [withToken_eq ha]
    cases hfound : maps.find? a.tokens with
    | none => rfl
    | some m => exact hkey m hfound
  rw [Write.plan_of_key maps hwrite, withToken_eq ha]
  cases maps.find? a.tokens <;> rfl

end AcmeKeys

/-! ### Calls, lister and server -/

/-- Whether the server may take the write: it creates what it does not have, and replaces what it
has in the version that it has. -/
def Write.fits {α : Type} [ClusterObject α] (stored : Option α) : Write α → Bool
  | .create _ => stored.isNone
  | .update o => stored.any fun p => version? o == version? p

structure TokenCalls where
  /-- The map at the server in all its versions, the last one being the stored one. -/
  versions : List ConfigMap
  /-- How many versions the lister has caught up with. -/
  known : Nat
  maps : Lister ConfigMap
  /-- What was sent and is not dealt with. -/
  requests : List (Token × Write ConfigMap)
  accepted : List Token

inductive TokenMove
  | send (t : Token)
  /-- The server takes one of the writes, and gives the map that version. -/
  | accept (i : Nat) (version : String)
  | reject (i : Nat)
  /-- The watch takes a step, and has caught up with that many versions then. -/
  | watch (e : WatchEvent ConfigMap) (known : Nat)

namespace TokenCalls

def start (initial : Option ConfigMap) : TokenCalls :=
  ⟨initial.toList, 0, .empty, [], []⟩

/-- The state after a move, if that move can be made. The server never gives a version twice. -/
def move? (a : AcmeKeys) (s : TokenCalls) : TokenMove → Option TokenCalls
  | .send t =>
    let w := Write.plan s.maps (a.withToken s.maps t.domain t.uri t.token)
    some { s with requests := s.requests ++ [(t, w)] }
  | .accept i version =>
    match s.requests[i]? with
    | some (t, w) =>
      if w.fits s.versions.getLast? ∧ some version ∉ s.versions.map version? then
        some { s with
          versions := s.versions ++ [withVersion w.object (some version)]
          requests := s.requests.eraseIdx i
          accepted := s.accepted ++ [t] }
      else none
    | none => none
  | .reject i => some { s with requests := s.requests.eraseIdx i }
  | .watch e n =>
    if s.known ≤ n ∧ n ≤ s.versions.length ∧
        (s.maps.step e).find? a.tokens = (s.versions.take n).getLast? then
      some { s with maps := s.maps.step e, known := n }
    else none

def run? (a : AcmeKeys) (s : TokenCalls) (ms : List TokenMove) : Option TokenCalls :=
  ms.foldlM (move? a) s

/-! ### What holds between the calls and the server -/

/-- The n-th accepted call replaced the version before its own, and changed it at its domain. -/
def Applied (initial : Option ConfigMap) (versions : List ConfigMap) (n : Nat) (t : Token) : Prop :=
  ∃ m, versions[initial.toList.length + n]? = some m ∧
    m.content = t.put (contentOf (versions.take (initial.toList.length + n)).getLast?)

structure Sound (a : AcmeKeys) (initial : Option ConfigMap) (s : TokenCalls) : Prop where
  length : s.versions.length = initial.toList.length + s.accepted.length
  keyed : ∀ m ∈ s.versions, keyOf m = a.tokens
  nodup : (s.versions.map version?).Nodup
  known_le : s.known ≤ s.versions.length
  find : s.maps.find? a.tokens = (s.versions.take s.known).getLast?
  requests : a.tokens.Legible → ∀ x ∈ s.requests, ∃ n ≤ s.versions.length,
    x.2 = a.tokenWrite x.1 (s.versions.take n).getLast?
  applied : ∀ n t, s.accepted[n]? = some t → Applied initial s.versions n t
  stored : contentOf s.versions.getLast? = s.accepted.foldl Token.put (contentOf initial)

variable {a : AcmeKeys} {initial : Option ConfigMap} {s s' : TokenCalls}

theorem sound_start (h : ∀ m ∈ initial, keyOf m = a.tokens) :
    (start initial).Sound a initial where
  length := rfl
  keyed m hm := h m (Option.mem_toList.1 hm)
  nodup := by cases initial <;> simp [start]
  known_le := Nat.zero_le _
  find := rfl
  requests _ _ hx := absurd hx List.not_mem_nil
  applied _ _ hn := by cases hn
  stored := by cases initial <;> rfl

theorem mem_of_getLast?_take {versions : List ConfigMap} {n : Nat} {m : ConfigMap}
    (h : (versions.take n).getLast? = some m) : m ∈ versions :=
  List.mem_of_mem_take (List.mem_of_getLast? h)

theorem Sound.send (h : s.Sound a initial) (t : Token) :
    Sound a initial { s with requests := s.requests ++
      [(t, Write.plan s.maps (a.withToken s.maps t.domain t.uri t.token))] } := by
  refine ⟨h.length, h.keyed, h.nodup, h.known_le, h.find, fun ha => ?_, h.applied, h.stored⟩
  rw [List.forall_mem_append]
  refine ⟨h.requests ha, fun x hx => ⟨s.known, h.known_le, ?_⟩⟩
  obtain rfl := List.mem_singleton.1 hx
  have hkey : ∀ m ∈ s.maps.find? a.tokens, keyOf m = a.tokens := by
    intro m hm
    rw [h.find] at hm
    exact h.keyed m (mem_of_getLast?_take hm)
  rw [AcmeKeys.plan_withToken ha hkey, h.find]

theorem Sound.erase (h : s.Sound a initial) (i : Nat) :
    Sound a initial { s with requests := s.requests.eraseIdx i } :=
  ⟨h.length, h.keyed, h.nodup, h.known_le, h.find,
    fun ha x hx => h.requests ha x (List.mem_of_mem_eraseIdx hx), h.applied, h.stored⟩

/-- The map that a call copied is the stored one if the server takes the copy: of all versions it
alone has that version. -/
theorem eq_stored_of_fits (hnodup : (s.versions.map version?).Nodup) {t : Token} {n : Nat}
    (hfits : (a.tokenWrite t (s.versions.take n).getLast?).fits s.versions.getLast? = true) :
    (s.versions.take n).getLast? = s.versions.getLast? := by
  cases hseen : (s.versions.take n).getLast? with
  | none =>
    rw [hseen] at hfits
    exact (Option.isNone_iff_eq_none.1 hfits).symm
  | some m =>
    cases hstored : s.versions.getLast? with
    | none =>
      rw [hseen, hstored] at hfits
      cases hfits
    | some p =>
      rw [hseen, hstored] at hfits
      have hversion : version? m = version? p := beq_iff_eq.1 hfits
      have hm := mem_of_getLast?_take hseen
      rw [List.inj_on_of_nodup_map hnodup hm (List.mem_of_getLast? hstored) hversion]

theorem content_tokenWrite (t : Token) (seen : Option ConfigMap) (version : Option String) :
    (withVersion (a.tokenWrite t seen).object version).content = t.put (contentOf seen) := by
  cases seen <;> rfl

theorem keyOf_tokenWrite {seen : Option ConfigMap} (h : ∀ m ∈ seen, keyOf m = a.tokens)
    (t : Token) (version : Option String) :
    keyOf (withVersion (a.tokenWrite t seen).object version) = a.tokens := by
  cases seen with
  | none => rfl
  | some m => exact h m rfl

theorem Applied.append {versions : List ConfigMap} {n : Nat} {t : Token}
    (h : Applied initial versions n t) (m : ConfigMap) :
    Applied initial (versions ++ [m]) n t := by
  obtain ⟨o, ho, hcontent⟩ := h
  have hlt := (List.getElem?_eq_some_iff.1 ho).1
  refine ⟨o, (List.getElem?_append_left hlt).trans ho, ?_⟩
  rw [List.take_append_of_le_length (by omega)]
  exact hcontent

/-- The server takes a copy of the stored map with the entry of a call. -/
theorem Sound.extend (h : s.Sound a initial) {t : Token} {m : ConfigMap}
    (hm : keyOf m = a.tokens) (hfresh : version? m ∉ s.versions.map version?)
    (hcontent : m.content = t.put (contentOf s.versions.getLast?)) :
    Sound a initial { s with versions := s.versions ++ [m], accepted := s.accepted ++ [t] } := by
  have hlength : (s.versions ++ [m]).length = s.versions.length + 1 := List.length_append
  refine ⟨?_, ?_, ?_, ?_, ?_, fun ha x hx => ?_, fun n u hu => ?_, ?_⟩
  · simp only [List.length_append, h.length, List.length_singleton, Nat.add_assoc]
  · rw [List.forall_mem_append]
    exact ⟨h.keyed, fun o ho => List.mem_singleton.1 ho ▸ hm⟩
  · rw [List.map_append, List.map_singleton, ← List.concat_eq_append]
    exact List.Nodup.concat hfresh h.nodup
  · rw [hlength]
    exact Nat.le_succ_of_le h.known_le
  · rw [List.take_append_of_le_length h.known_le]
    exact h.find
  · obtain ⟨n, hn, hw⟩ := h.requests ha x hx
    refine ⟨n, ?_, ?_⟩
    · rw [hlength]
      exact Nat.le_succ_of_le hn
    · rw [List.take_append_of_le_length hn]
      exact hw
  · rcases Nat.lt_trichotomy n s.accepted.length with hlt | rfl | hgt
    · rw [List.getElem?_append_left hlt] at hu
      exact (h.applied n u hu).append m
    · rw [List.getElem?_concat_length] at hu
      obtain rfl := Option.some.inj hu
      rw [Applied, ← h.length, List.getElem?_concat_length, List.take_left]
      exact ⟨m, rfl, hcontent⟩
    · rw [List.getElem?_eq_none (by simp only [List.length_append, List.length_singleton]; omega)]
        at hu
      cases hu
  · rw [List.getLast?_concat, List.foldl_concat, ← h.stored]
    exact hcontent

theorem Sound.move (h : s.Sound a initial) {m : TokenMove}
    (hplain : ∀ i version, m = .accept i version → a.tokens.Legible)
    (hm : s.move? a m = some s') : s'.Sound a initial := by
  cases m with
  | send t =>
    obtain rfl := Option.some.inj hm
    exact h.send t
  | reject i =>
    obtain rfl := Option.some.inj hm
    exact h.erase i
  | watch e n =>
    obtain ⟨⟨-, hn, hfind⟩, hm⟩ := Option.ite_none_right_eq_some.1 hm
    obtain rfl := Option.some.inj hm
    exact ⟨h.length, h.keyed, h.nodup, hn, hfind, h.requests, h.applied, h.stored⟩
  | accept i version =>
    simp only [move?] at hm
    split at hm
    · rename_i t w hi
      obtain ⟨⟨hfits, hfresh⟩, hm⟩ := Option.ite_none_right_eq_some.1 hm
      obtain rfl := Option.some.inj hm
      obtain ⟨n, -, hw⟩ := h.requests (hplain i version rfl) _ (List.mem_of_getElem? hi)
      obtain rfl : w = a.tokenWrite t (s.versions.take n).getLast? := hw
      have hseen := eq_stored_of_fits h.nodup hfits
      rw [hseen]
      have hkeyed : ∀ m ∈ s.versions.getLast?, keyOf m = a.tokens := fun m hm =>
        h.keyed m (List.mem_of_getLast? hm)
      exact (h.extend (keyOf_tokenWrite hkeyed t (some version)) hfresh
        (content_tokenWrite t _ _)).erase i
    · cases hm

/-- A session that is asked to set a token sends what the call sends. -/
theorem send_of_session (s : Session) (a : AcmeKeys) (t : Token) {c : TokenCalls}
    (hmaps : s.controller.listers.configMaps = c.maps) :
    ∃ w, c.move? a (.send t) = some { c with requests := c.requests ++ [(t, w)] } ∧
      (s.acmeStep a (.setToken t.domain t.uri t.token)).1.controller.record.requests =
        s.controller.record.requests ++ [Request.configMap w].filter Request.isSendable := by
  obtain ⟨versions, known, maps, requests, accepted⟩ := c
  obtain rfl : s.controller.listers.configMaps = maps := hmaps
  exact ⟨_, rfl, Session.requests_write s .configMap _ _⟩

/-- However the calls, the server and the lister interleave, each call that is accepted sets its
entry in the data of the map that it replaces, and no other entry; and the stored data are those at
the start with the accepted calls applied in the order of acceptance. The server takes no object
whose namespace has a slash. What a call sends is what a session sends that is asked to set the
token. -/
theorem stored_eq_foldl_accepted {settings : Settings} {a : AcmeKeys}
    (ha : settings.acmeKeys = .ok a) {initial : Option ConfigMap}
    (hinitial : ∀ m ∈ initial, keyOf m = a.tokens) {ms : List TokenMove}
    (hserver : ∀ i version, .accept i version ∈ ms → '/' ∉ a.tokens.ns.toList)
    {s : TokenCalls} (hrun : (start initial).run? a ms = some s) :
    (∀ n t, s.accepted[n]? = some t →
      ∃ m, s.versions[initial.toList.length + n]? = some m ∧
        m.content.get? t.domain = t.entry? ∧
        ∀ d, d ≠ t.domain → m.content.get? d =
          (contentOf (s.versions.take (initial.toList.length + n)).getLast?).get? d) ∧
      s.versions.length = initial.toList.length + s.accepted.length ∧
      contentOf s.versions.getLast? = s.accepted.foldl Token.put (contentOf initial) ∧
      ∀ (session : Session) (t : Token), session.controller.listers.configMaps = s.maps →
        ∃ w, s.move? a (.send t) = some { s with requests := s.requests ++ [(t, w)] } ∧
          (session.acmeStep a (.setToken t.domain t.uri t.token)).1.controller.record.requests =
            session.controller.record.requests ++
              [Request.configMap w].filter Request.isSendable := by
  have hplain : ∀ m ∈ ms, ∀ i version, m = .accept i version → a.tokens.Legible := by
    rintro m hm i version rfl
    exact AcmeKeys.legible_tokens ha (hserver i version hm)
  have hsound : s.Sound a initial := foldlM_preserves_of_forall (P := fun s => Sound a initial s)
    (fun _ _ _ hm hmove h => h.move hm hmove) hplain hrun (sound_start hinitial)
  refine ⟨fun n t ht => ?_, hsound.length, hsound.stored,
    fun session t hmaps => send_of_session session a t hmaps⟩
  obtain ⟨m, hm, hcontent⟩ := hsound.applied n t ht
  refine ⟨m, hm, ?_, fun d hd => ?_⟩
  · rw [hcontent, Token.get?_put_self]
  · rw [hcontent, Token.get?_put_of_ne _ _ hd]

/-- Two calls find no map. The first one is accepted, and the second one refused until the lister
knows of the map that there is then. -/
def retried (a : AcmeKeys) (t u : Token) : List TokenMove :=
  [.send t, .send u, .accept 0 "1", .reject 0,
    .watch (.apply (withVersion (a.tokenWrite t none).object (some "1"))) 1, .send u,
    .accept 0 "2"]

theorem stored_eq_foldl_accepted_of_retried :
    let settings : Settings :=
      { Settings.default with podNamespace := some "ingress", acme := ⟨"account", "tokens"⟩ }
    let a : AcmeKeys := ⟨⟨"ingress", "account"⟩, ⟨"ingress", "tokens"⟩, "ingress"⟩
    let t : Token := ⟨"a.example.com", "/challenge", "one"⟩
    let u : Token := ⟨"b.example.com", "/challenge", "two"⟩
    settings.acmeKeys = .ok a ∧ '/' ∉ a.tokens.ns.toList ∧
    ∃ s, (start none).run? a (retried a t u) = some s ∧ s.accepted = [t, u] ∧
      (contentOf s.versions.getLast?).get? t.domain = some "/challenge=one" ∧
      (contentOf s.versions.getLast?).get? u.domain = some "/challenge=two" := by
  intro settings a t u
  have ha : settings.acmeKeys = .ok a := by decide
  have hns : '/' ∉ a.tokens.ns.toList := by decide
  have haccepted : ((start none).run? a (retried a t u)).map TokenCalls.accepted =
      some [t, u] := by
    decide +kernel
  obtain ⟨s, hs, haccepted⟩ := Option.map_eq_some_iff.1 haccepted
  have hinitial : ∀ m ∈ (none : Option ConfigMap), keyOf m = a.tokens := by simp
  obtain ⟨-, -, hstored, -⟩ := stored_eq_foldl_accepted ha hinitial (fun _ _ _ => hns) hs
  rw [haccepted] at hstored
  refine ⟨ha, hns, s, hs, haccepted, ?_, ?_⟩
  · rw [hstored]
    decide
  · rw [hstored]
    decide

end TokenCalls

end IngressCache
