import IngressCache.Proofs.Acme.TokenStore

/-!
# Addresses of tokens

An entry of the config map joins the address and the token of a challenge by an equals sign, and an
enquiry takes it apart at the address that it is for. Where another equals sign is in the address or
inside the token, the entry is also that of a shorter or a longer address, and an enquiry for that
one is answered with what follows it.
-/

namespace IngressCache

/-! ### Texts that are taken apart at a sign -/

/-- A text with one sign in it, apart from the last place, is taken apart there only. -/
theorem eq_of_joined_eq {α : Type} {x : α} {u t v w : List α} (hv : x ∉ v) (hw : x ∉ w.dropLast)
    (ht : t ≠ []) (hwne : w ≠ []) (h : u ++ x :: t = v ++ x :: w) : u = v := by
  have hinit : v ++ x :: w.dropLast = u ++ x :: t.dropLast := by
    have hlast := congrArg List.dropLast h.symm
    rwa [List.dropLast_append_of_ne_nil (List.cons_ne_nil _ _),
      List.dropLast_append_of_ne_nil (List.cons_ne_nil _ _), List.dropLast_cons_of_ne_nil hwne,
      List.dropLast_cons_of_ne_nil ht] at hlast
  exact ((List.append_cons_inj_of_notMem hv hw).1 hinit).1.symm

theorem exists_joined_of_mem_left {α : Type} {x : α} {v : List α} (hv : x ∈ v) (w : List α) :
    ∃ u t, u ≠ v ∧ t ≠ [] ∧ u ++ x :: t = v ++ x :: w := by
  obtain ⟨u, y, rfl⟩ := List.append_of_mem hv
  exact ⟨u, y ++ x :: w, by simp, by simp, by simp⟩

theorem exists_joined_of_mem_right {α : Type} {x : α} (v : List α) {w : List α}
    (hw : x ∈ w.dropLast) : ∃ u t, u ≠ v ∧ t ≠ [] ∧ u ++ x :: t = v ++ x :: w := by
  have hne : w ≠ [] := by
    rintro rfl
    cases hw
  obtain ⟨y, z, hyz⟩ := List.append_of_mem hw
  have hsplit : w = y ++ x :: (z ++ [w.getLast hne]) := by
    rw [← List.cons_append, ← List.append_assoc, ← hyz, List.dropLast_append_getLast hne]
  refine ⟨v ++ x :: y, z ++ [w.getLast hne], by simp, by simp, ?_⟩
  rw [List.append_assoc, List.cons_append, ← hsplit]

namespace AcmeKeys

theorem toList_entry (uri token : String) :
    (uri ++ "=" ++ token).toList = uri.toList ++ '=' :: token.toList := by
  simp [String.toList_append]

theorem tokenOf_eq_some_iff {uri entry token : String} :
    tokenOf uri entry = some token ↔ uri ++ "=" ++ token = entry := by
  constructor
  · intro h
    obtain ⟨rest, hrest, rfl⟩ := Option.map_eq_some_iff.1 h
    rw [List.isPrefixOf?_eq_some_iff_append_eq, List.append_assoc] at hrest
    rw [← String.toList_inj, toList_entry, String.toList_ofList]
    exact hrest
  · rintro rfl
    exact tokenOf_entry uri token

/-- The entry that a call has set is taken apart at the address of no other token. -/
def Unsplit (t : Token) : Prop :=
  '=' ∉ t.uri.toList ∧ '=' ∉ t.token.toList.dropLast

instance (t : Token) : Decidable (Unsplit t) :=
  inferInstanceAs (Decidable (_ ∧ _))

theorem unsplit_iff {t : Token} (ht : t.token ≠ "") :
    Unsplit t ↔ ∀ uri token, uri ≠ t.uri → token ≠ "" →
      uri ++ "=" ++ token ≠ t.uri ++ "=" ++ t.token := by
  have hnil : ∀ {s : String}, s ≠ "" → s.toList ≠ [] := fun h he => h (String.toList_eq_nil_iff.1 he)
  have hother : ∀ u v : List Char, u ≠ t.uri.toList → v ≠ [] →
      u ++ '=' :: v = t.uri.toList ++ '=' :: t.token.toList →
      ∃ uri token, uri ≠ t.uri ∧ token ≠ "" ∧ uri ++ "=" ++ token = t.uri ++ "=" ++ t.token := by
    intro u v hu hv he
    refine ⟨String.ofList u, String.ofList v, fun h => hu ?_, fun h => hv ?_, ?_⟩
    · rw [← h, String.toList_ofList]
    · rw [← String.toList_ofList (l := v), h]
      rfl
    · rw [← String.toList_inj, toList_entry, toList_entry, String.toList_ofList,
        String.toList_ofList]
      exact he
  constructor
  · rintro ⟨huri, htoken⟩ uri token hne htok he
    have hlist := congrArg String.toList he
    rw [toList_entry, toList_entry] at hlist
    exact hne (String.toList_inj.1 (eq_of_joined_eq huri htoken (hnil htok) (hnil ht) hlist))
  · intro h
    refine ⟨fun huri => ?_, fun htoken => ?_⟩
    · obtain ⟨u, v, hu, hv, he⟩ := exists_joined_of_mem_left huri t.token.toList
      obtain ⟨uri, token, hne, htok, he⟩ := hother u v hu hv he
      exact h uri token hne htok he
    · obtain ⟨u, v, hu, hv, he⟩ := exists_joined_of_mem_right t.uri.toList htoken
      obtain ⟨uri, token, hne, htok, he⟩ := hother u v hu hv he
      exact h uri token hne htok he

variable {a : AcmeKeys}

theorem token_eq_iff_of_turn? (ha : a.tokens.Legible) {maps maps' : Lister ConfigMap}
    {turn : TokenTurn} (hturn : a.turn? maps turn = some maps') (hset : turn.token.token ≠ "")
    {uri token : String} (htoken : token ≠ "") :
    a.token maps' turn.token.domain uri = token ↔
      uri ++ "=" ++ token = turn.token.uri ++ "=" ++ turn.token.token := by
  have hentry : (a.written maps turn).content.get? turn.token.domain =
      some (turn.token.uri ++ "=" ++ turn.token.token) := by
    rw [content_written ha, Token.get?_put_self, Token.entry?, if_neg hset]
  have hanswer : a.token maps' turn.token.domain uri =
      (tokenOf uri (turn.token.uri ++ "=" ++ turn.token.token)).getD "" := by
    rw [token_eq ha, find?_of_turn? hturn]
    show (((a.written maps turn).content.get? turn.token.domain).bind (tokenOf uri)).getD "" = _
    rw [hentry, Option.bind_some]
  rw [hanswer, ← tokenOf_eq_some_iff]
  cases tokenOf uri (turn.token.uri ++ "=" ++ turn.token.token) with
  | none => simpa using htoken.symm
  | some rest => simp

/-- After a call that has set a token, an enquiry for the domain answers what follows its address in
the entry. So it answers nothing for all addresses but that of the call exactly where there is no
equals sign in the address of the call, and none in the token but as its last character. A map whose
namespace has a slash is never found. -/
theorem others_empty_iff_unsplit {settings : Settings} (ha : settings.acmeKeys = .ok a)
    {maps maps' : Lister ConfigMap} {turn : TokenTurn} (hturn : a.turn? maps turn = some maps')
    (hset : turn.token.token ≠ "") :
    (∀ uri token, token ≠ "" →
      (a.token maps' turn.token.domain uri = token ↔ '/' ∉ a.tokens.ns.toList ∧
        uri ++ "=" ++ token = turn.token.uri ++ "=" ++ turn.token.token)) ∧
    ((∀ uri, uri ≠ turn.token.uri → a.token maps' turn.token.domain uri = "") ↔
      '/' ∈ a.tokens.ns.toList ∨
        '=' ∉ turn.token.uri.toList ∧ '=' ∉ turn.token.token.toList.dropLast) := by
  have hpoint : ∀ uri token, token ≠ "" →
      (a.token maps' turn.token.domain uri = token ↔ '/' ∉ a.tokens.ns.toList ∧
        uri ++ "=" ++ token = turn.token.uri ++ "=" ++ turn.token.token) := by
    intro uri token htoken
    by_cases hns : '/' ∈ a.tokens.ns.toList
    · rw [token_of_slash hns]
      exact iff_of_false htoken.symm fun h => h.1 hns
    · rw [token_eq_iff_of_turn? (legible_tokens ha hns) hturn hset htoken]
      exact (and_iff_right hns).symm
  refine ⟨hpoint, ?_⟩
  by_cases hns : '/' ∈ a.tokens.ns.toList
  · exact iff_of_true (fun uri _ => token_of_slash hns maps' _ uri) (.inl hns)
  · rw [or_iff_right hns]
    refine Iff.trans ?_ (unsplit_iff hset).symm
    constructor
    · intro hempty uri token hne htoken he
      have hanswer := (hpoint uri token htoken).2 ⟨hns, he⟩
      exact htoken (hanswer.symm.trans (hempty uri hne))
    · intro hother uri hne
      by_contra hanswer
      exact hother uri _ hne hanswer ((hpoint uri _ hanswer).1 rfl).2

/-- A token that ends with the sign is served for its own address only. -/
theorem others_empty_of_padded :
    let turn : TokenTurn := ⟨⟨"example.com", "/c", "b25l="⟩, some "1", []⟩
    ∃ (a : AcmeKeys) (maps' : Lister ConfigMap), Settings.default.acmeKeys = .ok a ∧
      a.turn? .empty { turn with watch := [.apply (a.written .empty turn)] } = some maps' ∧
      a.token maps' "example.com" "/c" = "b25l=" ∧
      ∀ uri, uri ≠ "/c" → a.token maps' "example.com" uri = "" := by
  intro turn
  let a : AcmeKeys :=
    ⟨⟨"default", "acme-private-key"⟩, ⟨"default", "acme-validation-tokens"⟩, "default"⟩
  have ha : Settings.default.acmeKeys = .ok a := by decide
  have hturn := turn?_apply (a := a) (by decide) (Lister.keeps_empty fun _ => True) turn.token
    turn.version
  obtain ⟨hanswer, hempty⟩ := others_empty_iff_unsplit ha hturn (by decide)
  exact ⟨a, _, ha, hturn, (hanswer "/c" "b25l=" (by decide)).2 ⟨by decide, rfl⟩,
    hempty.2 (.inr (by decide))⟩

/-- A token with the sign inside it is also the token of a longer address: what follows the sign is
served for that one. -/
theorem others_not_empty_of_sign :
    let turn : TokenTurn := ⟨⟨"example.com", "/c", "b=d"⟩, some "1", []⟩
    ∃ (a : AcmeKeys) (maps' : Lister ConfigMap), Settings.default.acmeKeys = .ok a ∧
      a.turn? .empty { turn with watch := [.apply (a.written .empty turn)] } = some maps' ∧
      "/c=b" ≠ "/c" ∧ a.token maps' "example.com" "/c=b" = "d" := by
  intro turn
  let a : AcmeKeys :=
    ⟨⟨"default", "acme-private-key"⟩, ⟨"default", "acme-validation-tokens"⟩, "default"⟩
  exact ⟨a, _, by decide, turn?_apply (by decide) (Lister.keeps_empty fun _ => True) turn.token
    turn.version, by decide, by decide⟩

end AcmeKeys

end IngressCache
