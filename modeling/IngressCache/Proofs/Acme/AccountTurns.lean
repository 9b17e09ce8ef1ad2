import IngressCache.Proofs.Acme.Visibility
import Mathlib.Data.List.Chain

/-!
# One call for the account key after the other

A call looks at the lister when it loads the key, and once more when it writes a key of its own;
in between, and from one call to the next, the lister may change. A key is answered when it was
loaded from the secret or when the write that brings it there was accepted, and what is stored then
is what later calls load. The lister misleads a call where it does not hold the secret, but finds
for it one of its name that has no namespace: the call loads the key of that one, or takes it for a
version of the secret.
-/

namespace IngressCache

/-! ### Turns -/

/-- What becomes of a write at the server. An answer can be lost on its way back. -/
inductive WriteOutcome
  | stored (version : Option String)
  | unheard (version : Option String) (fault : ApiFault)
  | refused (fault : ApiFault)

namespace WriteOutcome

def version? : WriteOutcome → Option (Option String)
  | stored version | unheard version _ => some version
  | refused _ => none

def reply : WriteOutcome → Except ApiFault Unit
  | stored _ => .ok ()
  | unheard _ fault | refused fault => .error fault

end WriteOutcome

/-- A call, with the lister at its first and at its second look. -/
structure AccountTurn (ι : Type) where
  caller : ι
  first : Lister Secret
  second : Lister Secret
  outcome : WriteOutcome

structure AccountAnswer (κ : Type) where
  writes : List (Write Secret)
  result : Except Failure κ

namespace AccountSource

variable {ι κ : Type} (src : AccountSource ι κ)

def answer (t : AccountTurn ι) : AccountAnswer κ :=
  match src.keys.loadAccountKey src.read t.first with
  | .ok key => ⟨[], .ok key⟩
  | .error _ =>
    ⟨[Write.plan t.second (src.secretOf t.caller)],
      (t.outcome.reply.mapError (.ofApi .secret src.keys.account.name)).map
        fun _ => src.fresh t.caller⟩

/-! ### What a call owes -/

/-- The secret that the lister holds under the key itself. -/
def held (l : Lister Secret) : Option Secret :=
  l.stored? src.keys.account.identity

def heldKey (l : Lister Secret) : Option κ :=
  (src.held l).bind src.keyOf

def foundKey (l : Lister Secret) : Option κ :=
  (l.find? src.keys.account).bind src.keyOf

/-- The write of a call to which that secret is known. -/
def writeOver (known : Option Secret) (i : ι) : Write Secret :=
  match known with
  | some o => .update (withVersion (src.secretOf i) (version? o))
  | none => .create (src.secretOf i)

/-- What a call owes that has one key to load, or none, and one secret to write over, or none. A key
is answered as it is loaded. Without one there is a single write, and the key in it is answered
exactly if the write was accepted. -/
structure Owed (t : AccountTurn ι) (loaded : Option κ) (known : Option Secret) : Prop where
  silent_iff : (src.answer t).writes = [] ↔ ∃ key, loaded = some key
  load : ∀ key, loaded = some key → (src.answer t).result = .ok key
  write : loaded = none →
    (src.answer t).writes = [src.writeOver known t.caller] ∧
    ∀ key, (src.answer t).result = .ok key ↔
      t.outcome.reply = .ok () ∧ src.keyOf (src.writeOver known t.caller).object = some key

/-- The lister finds that secret for the key, but holds it without a namespace. -/
def StandIn (l : Lister Secret) (o : Secret) : Prop :=
  src.held l = none ∧ l.stored? { src.keys.account.identity with ns := none } = some o

/-- The call takes the key of a secret that is not the one of the account. -/
def Borrows (t : AccountTurn ι) : Prop :=
  ∃ o key, src.StandIn t.first o ∧ src.keyOf o = some key

/-- The call borrows a key, or it takes another secret for a version of its own. -/
def Misled (t : AccountTurn ι) : Prop :=
  src.Borrows t ∨ src.foundKey t.first = none ∧ ∃ o, src.StandIn t.second o

/-- The secret after a call: as the server has taken it, or as the call last saw it. -/
def heldAfter (t : AccountTurn ι) : Option Secret :=
  match (src.answer t).writes, t.outcome.version? with
  | [], _ => src.held t.first
  | w :: _, some version => some (w.taken version)
  | _ :: _, none => src.held t.second

/-- Nobody but the first call has changed the secret when the second one is made, and what the
server has taken from it has reached the lister. -/
def Follows (t t' : AccountTurn ι) : Prop :=
  src.held t'.first = src.heldAfter t

variable {src}

/-! ### What the lister finds -/

theorem find?_of_standIn {l : Lister Secret} {o : Secret} (h : src.StandIn l o) :
    l.find? src.keys.account = some o :=
  Lister.Mistakes.get?_eq ⟨h.1, h.2⟩

theorem find?_of_not_standIn {l : Lister Secret} (h : ∀ o, ¬src.StandIn l o) :
    l.find? src.keys.account = src.held l :=
  Lister.find?_of_not_mistakes fun o hs => h o ⟨hs.absent, hs.present⟩

theorem foundKey_of_standIn {l : Lister Secret} {o : Secret} (h : src.StandIn l o) :
    src.foundKey l = src.keyOf o := by
  rw [foundKey, find?_of_standIn h]
  rfl

theorem foundKey_of_heldKey {l : Lister Secret} {key : κ} (h : src.heldKey l = some key) :
    src.foundKey l = some key := by
  obtain ⟨o, ho, hk⟩ := Option.bind_eq_some_iff.1 h
  rw [foundKey, Lister.find?_of_stored? ho]
  exact hk

theorem heldKey_eq_none {l : Lister Secret} (h : src.foundKey l = none) : src.heldKey l = none :=
  Option.eq_none_iff_forall_ne_some.2 fun _ hk => nomatch h.symm.trans (foundKey_of_heldKey hk)

theorem foundKey_of_not_borrows {t : AccountTurn ι} (hb : ¬src.Borrows t) :
    src.foundKey t.first = src.heldKey t.first := by
  by_cases hstand : ∃ o, src.StandIn t.first o
  · obtain ⟨o, ho⟩ := hstand
    have hkey : src.keyOf o = none :=
      Option.eq_none_iff_forall_ne_some.2 fun key hk => hb ⟨o, key, ho, hk⟩
    rw [foundKey_of_standIn ho, heldKey, ho.1]
    exact hkey
  · rw [foundKey, find?_of_not_standIn (not_exists.1 hstand)]
    rfl

/-! ### What a call does -/

section
variable (h : src.keys.account.Legible)
include h

theorem answer_of_key {t : AccountTurn ι} {key : κ} (hkey : src.foundKey t.first = some key) :
    src.answer t = ⟨[], .ok key⟩ := by
  obtain ⟨o, ho, hk⟩ := Option.bind_eq_some_iff.1 hkey
  unfold answer
  rw [(load_eq_ok_iff h).2 ⟨o, ho, hk⟩]

theorem answer_of_no_key {t : AccountTurn ι} (hkey : src.foundKey t.first = none) :
    src.answer t = ⟨[src.writeOver (t.second.find? src.keys.account) t.caller],
      (t.outcome.reply.mapError (.ofApi .secret src.keys.account.name)).map
        fun _ => src.fresh t.caller⟩ := by
  have hplan : Write.plan t.second (src.secretOf t.caller) =
      src.writeOver (t.second.find? src.keys.account) t.caller :=
    AccountCalls.plan_secretOf t.second t.caller
  unfold answer
  cases hload : src.keys.loadAccountKey src.read t.first with
  | ok key =>
    obtain ⟨o, ho, hk⟩ := (load_eq_ok_iff h).1 hload
    rw [foundKey, ho] at hkey
    exact nomatch hkey.symm.trans hk
  | error f => rw [hplan]

theorem owed_of_key {t : AccountTurn ι} {key : κ} (hkey : src.foundKey t.first = some key)
    (known : Option Secret) : src.Owed t (some key) known where
  silent_iff := by
    rw [answer_of_key h hkey]
    exact iff_of_true rfl ⟨key, rfl⟩
  load k hk := by
    rw [answer_of_key h hkey, ← Option.some.inj hk]
  write hnone := by cases hnone

theorem heldAfter_of_key {t : AccountTurn ι} {key : κ} (hkey : src.foundKey t.first = some key) :
    src.heldAfter t = src.held t.first := by
  unfold heldAfter
  rw [answer_of_key h hkey]

theorem answer_of_chain {t : AccountTurn ι} {key : κ}
    (hkey : (src.heldAfter t).bind src.keyOf = some key) {after : List (AccountTurn ι)}
    (hchain : (t :: after).IsChain src.Follows) :
    ∀ t' ∈ after, src.answer t' = ⟨[], .ok key⟩ := by
  induction after generalizing t with
  | nil => exact fun t' ht' => nomatch ht'
  | cons next after ih =>
    obtain ⟨hfollows, hrest⟩ := List.isChain_cons_cons.1 hchain
    have hheld : src.heldKey next.first = some key := by
      rw [heldKey, hfollows]
      exact hkey
    have hfound := foundKey_of_heldKey hheld
    have hafter : (src.heldAfter next).bind src.keyOf = some key := by
      rw [heldAfter_of_key h hfound]
      exact hheld
    exact List.forall_mem_cons.2 ⟨answer_of_key h hfound, ih hafter hrest⟩

end

theorem keyOf_writeOver (hread : ∀ i, src.read (src.pem i) = .ok (src.fresh i))
    (known : Option Secret) (i : ι) :
    src.keyOf (src.writeOver known i).object = some (src.fresh i) := by
  have hget : (src.writeOver known i).object.get? DataKey.privateKey = some (src.pem i) := by
    cases known <;> exact Dict.get?_insert_self _ _ _
  rw [keyOf, hget, Option.bind_some, hread]
  rfl

theorem ok_iff_reply (r : Except ApiFault Unit) (name : String) (fresh key : κ) :
    (r.mapError (Failure.ofApi .secret name)).map (fun _ => fresh) = .ok key ↔
      r = .ok () ∧ fresh = key := by
  cases r <;> simp [Except.mapError, Except.map]

section
variable (h : src.keys.account.Legible) (hread : ∀ i, src.read (src.pem i) = .ok (src.fresh i))
include h hread

theorem owed_of_no_key {t : AccountTurn ι} (hkey : src.foundKey t.first = none) :
    src.Owed t none (t.second.find? src.keys.account) where
  silent_iff := by
    rw [answer_of_no_key h hkey]
    simp
  load key hk := by cases hk
  write _ := by
    rw [answer_of_no_key h hkey]
    refine ⟨rfl, fun key => ?_⟩
    rw [keyOf_writeOver hread, Option.some.injEq]
    exact ok_iff_reply _ _ _ _

theorem owed_found (t : AccountTurn ι) :
    src.Owed t (src.foundKey t.first) (t.second.find? src.keys.account) := by
  cases hkey : src.foundKey t.first with
  | some key => exact owed_of_key h hkey _
  | none => exact owed_of_no_key h hread hkey

theorem owed_held_iff (t : AccountTurn ι) :
    src.Owed t (src.heldKey t.first) (src.held t.second) ↔ ¬src.Misled t := by
  constructor
  · rintro howed (⟨o, key, hstand, hkey⟩ | ⟨hnone, o, hstand⟩)
    · -- The borrowed key is answered without a write, and no key is held.
      have hfound : src.foundKey t.first = some key := (foundKey_of_standIn hstand).trans hkey
      obtain ⟨k, hk⟩ := howed.silent_iff.1 ((owed_of_key h hfound none).silent_iff.2 ⟨key, rfl⟩)
      rw [heldKey, hstand.1] at hk
      cases hk
    · -- The write replaces a secret, and none is held that it could replace.
      have hwrite := (owed_of_no_key h hread hnone).write rfl
      have hheld := howed.write (heldKey_eq_none hnone)
      rw [find?_of_standIn hstand] at hwrite
      rw [hstand.1] at hheld
      cases hwrite.1.symm.trans hheld.1
  · intro hmisled
    rw [Misled, not_or, not_and] at hmisled
    rw [← foundKey_of_not_borrows hmisled.1]
    cases hkey : src.foundKey t.first with
    | some key => exact owed_of_key h hkey _
    | none =>
      rw [← find?_of_not_standIn (not_exists.1 (hmisled.2 hkey))]
      exact owed_of_no_key h hread hkey

/-! ### What is stored after a call -/

theorem keyOf_heldAfter {t : AccountTurn ι} {key : κ} (hok : (src.answer t).result = .ok key)
    (hb : ¬src.Borrows t) : (src.heldAfter t).bind src.keyOf = some key := by
  cases hkey : src.foundKey t.first with
  | some k =>
    have hsame := (owed_of_key h hkey none).load k rfl
    rw [← Except.ok.inj (hsame.symm.trans hok), heldAfter_of_key h hkey]
    exact (foundKey_of_not_borrows hb).symm.trans hkey
  | none =>
    obtain ⟨hwrites, hresult⟩ := (owed_of_no_key h hread hkey).write rfl
    obtain ⟨hreply, hsent⟩ := (hresult key).1 hok
    -- Only a write that was stored is answered without a fault.
    cases hout : t.outcome with
    | stored version =>
      unfold heldAfter
      rw [hwrites, hout]
      exact hsent
    | _ =>
      rw [hout] at hreply
      cases hreply

theorem exists_follows_of_borrows {t : AccountTurn ι} (hb : src.Borrows t) :
    ∃ t', src.Follows t t' ∧ (src.answer t').writes ≠ [] := by
  obtain ⟨o, key, hstand, hkey⟩ := hb
  -- The namesake is gone at the next call, though nobody has changed the secret.
  refine ⟨⟨t.caller, .empty, .empty, t.outcome⟩, ?_, ?_⟩
  · show src.held .empty = src.heldAfter t
    rw [heldAfter_of_key h ((foundKey_of_standIn hstand).trans hkey), hstand.1]
    rfl
  · have howed := owed_of_no_key h hread (t := ⟨t.caller, .empty, .empty, t.outcome⟩) rfl
    rw [(howed.write rfl).1]
    exact List.cons_ne_nil _ _

end

end AccountSource

/-! ### Sessions -/

namespace Session

def outcome (s : Session) (w : Write Secret) : WriteOutcome :=
  if (Request.secret w).isSendable then
    match s.cluster.answer.2 with
    | .ok _ => .stored (version? w.object)
    | .error f => .refused f
  else .refused .request

def accountTurn (s : Session) (a : AcmeKeys) : AccountTurn Unit :=
  let l := s.controller.listers.secrets
  ⟨(), l, l, s.outcome (Write.plan l (a.accountSecret generatedMark))⟩

theorem result_write (s : Session) (w : Write Secret) :
    (s.write .secret w.object (.secret w)).2 = (s.outcome w).reply.mapError
      (.ofApi .secret (ClusterObject.metadata w.object).nameOrEmpty) := by
  unfold write send outcome
  cases (Request.secret w).isSendable with
  | false => rfl
  | true =>
    simp only [if_true]
    rcases s.cluster.answer with ⟨c, _ | _ | _⟩ <;> rfl

section
variable {s : Session} {a : AcmeKeys} (stamp : Nat → String)

theorem answer_of_load_ok {key : AccountKey}
    (hload : a.loadAccountKey AccountKey.read s.controller.listers.secrets = .ok key) :
    (accountSource a stamp).answer (s.accountTurn a) = ⟨[], .ok key⟩ := by
  simp only [AccountSource.answer, accountSource, accountTurn, hload]

theorem answer_of_load_error {f : Failure}
    (hload : a.loadAccountKey AccountKey.read s.controller.listers.secrets = .error f) :
    let w := Write.plan s.controller.listers.secrets (a.accountSecret generatedMark)
    (accountSource a stamp).answer (s.accountTurn a) = ⟨[w],
      ((s.outcome w).reply.mapError (.ofApi .secret a.account.name)).map fun _ => .generated⟩ := by
  intro w
  simp only [AccountSource.answer, accountSource, accountTurn, hload]
  rfl

end

/-- A call of a session takes a turn whose two looks are the same. It asks the server for what it
writes, if that can be sent. -/
theorem accountKey_answer (s : Session) (a : AcmeKeys) (stamp : Nat → String) :
    let answer := (accountSource a stamp).answer (s.accountTurn a)
    (s.accountKey a).2 = answer.result ∧
      (s.accountKey a).1.controller.record.requests = s.controller.record.requests ++
        (answer.writes.map Request.secret).filter Request.isSendable := by
  intro answer
  cases hload : a.loadAccountKey AccountKey.read s.controller.listers.secrets with
  | ok key =>
    have hanswer : answer = _ := answer_of_load_ok stamp hload
    rw [hanswer, (accountKey_eq_iff s a key).2 hload]
    exact ⟨rfl, (List.append_nil _).symm⟩
  | error f =>
    let w := Write.plan s.controller.listers.secrets (a.accountSecret generatedMark)
    have hanswer : answer = _ := answer_of_load_error stamp hload
    have hname : (ClusterObject.metadata w.object).nameOrEmpty = a.account.name := by
      obtain ⟨version, hw⟩ := Write.exists_object_plan s.controller.listers.secrets
        (a.accountSecret generatedMark)
      rw [hw]
      rfl
    obtain ⟨ws, hresult, hrecord, -⟩ := accountKey_of_load_error hload
    rw [hresult, hrecord, hanswer, result_write, hname]
    exact ⟨rfl, requests_write _ _ _ _⟩

/-- In a session whose writes come back to the lister, the next call follows. -/
theorem accountKey_follows {s : Session} {a : AcmeKeys} (stamp : Nat → String) (hs : s.Prompt) :
    (accountSource a stamp).Follows (s.accountTurn a) ((s.accountKey a).1.accountTurn a) := by
  let src := accountSource a stamp
  let l := s.controller.listers.secrets
  show src.held (s.accountKey a).1.controller.listers.secrets = src.heldAfter (s.accountTurn a)
  cases hload : a.loadAccountKey AccountKey.read l with
  | ok key =>
    have hanswer : src.answer (s.accountTurn a) = _ := answer_of_load_ok stamp hload
    rw [(accountKey_eq_iff s a key).2 hload, AccountSource.heldAfter, hanswer]
    rfl
  | error f =>
    let w := Write.plan l (a.accountSecret generatedMark)
    have hanswer : src.answer (s.accountTurn a) = _ := answer_of_load_error stamp hload
    have hidentity : identity w.object = a.account.identity := by
      obtain ⟨version, hw⟩ := Write.exists_object_plan l (a.accountSecret generatedMark)
      rw [hw]
      rfl
    obtain ⟨ws, -, -, hlisters⟩ := accountKey_of_load_error hload
    rw [hlisters, AccountSource.heldAfter, hanswer]
    show _ = match [w], (s.outcome w).version? with
      | [], _ => src.held l
      | w :: _, some version => some (w.taken version)
      | _ :: _, none => src.held l
    cases hsend : (Request.secret w).isSendable with
    | true =>
      have hversion : (s.outcome w).version? = some (version? w.object) := by
        unfold outcome Cluster.answer
        rw [hs.quiet, if_pos hsend]
        rfl
      have hwarned : Prompt { s with controller := s.controller.warn ws } :=
        ⟨hs.writeThrough, hs.watches, hs.quiet⟩
      have hafter := (hwarned.write (k := .secret) (o := w.object) hsend).2
      rw [hafter, hversion]
      show (l.step (.apply w.object)).stored? a.account.identity = some w.object
      rw [← hidentity]
      exact Lister.stored?_step_apply_self l w.object
    | false =>
      have hversion : (s.outcome w).version? = none := by
        unfold outcome
        rw [hsend]
        rfl
      rw [write_of_not_sendable _ hsend, hversion]
      rfl

end Session

/-! ### The law of the account key -/

namespace AccountSource

open AccountCalls (pair lawful_pair)

variable {ι κ : Type} {src : AccountSource ι κ}

/-- The account key that is handed out is the one that is stored. A call keeps to the secret that
the lister holds under the configured key exactly if no secret of that name without a namespace
misleads it, and in any case to the one that the lister finds. And when a call has answered a key,
all calls after it answer that one and write nothing while nobody else changes the secret, exactly
if it was not borrowed. A session that is asked for the key answers as such a call, and sends what it
writes; where its writes come back at once, its next call follows. -/
theorem owed_iff_not_misled {settings : Settings} (ha : settings.acmeKeys = .ok src.keys)
    (hns : '/' ∉ src.keys.account.ns.toList)
    (hread : ∀ i, src.read (src.pem i) = .ok (src.fresh i)) (t : AccountTurn ι) :
    (src.Owed t (src.heldKey t.first) (src.held t.second) ↔ ¬src.Misled t) ∧
    src.Owed t (src.foundKey t.first) (t.second.find? src.keys.account) ∧
    (∀ key, (src.answer t).result = .ok key →
      ((∀ after, (t :: after).IsChain src.Follows →
        ∀ t' ∈ after, src.answer t' = ⟨[], .ok key⟩) ↔ ¬src.Borrows t)) ∧
    ∀ (s : Session) (stamp : Nat → String),
      let source := Session.accountSource src.keys stamp
      let turn := s.accountTurn src.keys
      let after := (s.accountKey src.keys).1
      (s.accountKey src.keys).2 = (source.answer turn).result ∧
        after.controller.record.requests = s.controller.record.requests ++
          ((source.answer turn).writes.map Request.secret).filter Request.isSendable ∧
        (s.Prompt → source.Follows turn (after.accountTurn src.keys)) := by
  obtain ⟨hname, hne⟩ := Key.plain_of_parseIn (Settings.of_acmeKeys ha).1
  have h : src.keys.account.Legible := ⟨hns, hname, hne⟩
  refine ⟨owed_held_iff h hread t, owed_found h hread t, fun key hok => ⟨fun hall hb => ?_,
    fun hb after hchain => answer_of_chain h (keyOf_heldAfter h hread hok hb) hchain⟩,
    fun s stamp => ?_⟩
  · obtain ⟨t', hfollows, hwrites⟩ := exists_follows_of_borrows h hread hb
    have hchain : [t, t'].IsChain src.Follows :=
      List.isChain_cons_cons.2 ⟨hfollows, List.isChain_singleton _⟩
    rw [hall [t'] hchain t' List.mem_cons_self] at hwrites
    exact hwrites rfl
  · obtain ⟨hresult, hrequests⟩ := s.accountKey_answer src.keys stamp
    exact ⟨hresult, hrequests, Session.accountKey_follows stamp⟩

/-- The first call stores its key, and the second one answers that. -/
theorem owed_of_first_call :
    let settings : Settings :=
      { Settings.default with podNamespace := some "ingress", acme := ⟨"account", "tokens"⟩ }
    let t : AccountTurn Bool := ⟨false, .empty, .empty, .stored (some "1")⟩
    let l := Lister.empty.step (.apply (withVersion (pair.secretOf false) (some "1")))
    settings.acmeKeys = .ok pair.keys ∧ pair.Owed t none none ∧
      (pair.answer t).result = .ok ⟨187, 3, 27⟩ ∧
      ∀ outcome, pair.answer ⟨true, l, l, outcome⟩ = ⟨[], .ok ⟨187, 3, 27⟩⟩ := by
  intro settings t l
  have ha : settings.acmeKeys = .ok pair.keys := by decide
  obtain ⟨-, howed, hrun, -⟩ := owed_iff_not_misled ha (by decide) lawful_pair.read_pem t
  have hok := (((howed.write rfl).2 ⟨187, 3, 27⟩).2 ⟨rfl, by decide +kernel⟩)
  refine ⟨ha, howed, hok, fun outcome => ?_⟩
  have hb : ¬pair.Borrows t := fun ⟨_, _, hstand, _⟩ => nomatch hstand.2
  have hafter : pair.held l = pair.heldAfter t := by decide +kernel
  have hchain : [t, ⟨true, l, l, outcome⟩].IsChain pair.Follows :=
    List.isChain_cons_cons.2 ⟨hafter, List.isChain_singleton _⟩
  exact (hrun _ hok).2 hb _ hchain _ List.mem_cons_self

/-- The lister holds no secret of the configured key, but one of that name without a namespace. Its
key is answered, and nothing is written. -/
theorem not_owed_of_namesake :
    let o : Secret := ⟨⟨none, some "account", none, none, none, none, false⟩,
      some (Dict.empty.insert DataKey.privateKey (pair.pem true)), none⟩
    let l := Lister.empty.step (.apply o)
    let t : AccountTurn Bool := ⟨false, l, l, .stored (some "1")⟩
    pair.held l = none ∧ pair.answer t = ⟨[], .ok ⟨55, 3, 7⟩⟩ ∧
      ¬pair.Owed t (pair.heldKey l) (pair.held l) := by
  intro o l t
  have hheld : pair.held l = none := by decide
  have hstand : pair.StandIn l o := ⟨hheld, Lister.stored?_step_apply_self _ o⟩
  have hkey : pair.keyOf o = some ⟨55, 3, 7⟩ := by decide +kernel
  have hanswer : pair.answer t = ⟨[], .ok ⟨55, 3, 7⟩⟩ :=
    answer_of_key (by decide) ((foundKey_of_standIn hstand).trans hkey)
  refine ⟨hheld, hanswer, fun howed => ?_⟩
  obtain ⟨key, hnone⟩ := howed.silent_iff.1 (by rw [hanswer])
  rw [heldKey, hheld] at hnone
  cases hnone

end AccountSource

end IngressCache
