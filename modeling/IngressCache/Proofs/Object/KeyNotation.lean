import IngressCache.Proofs.Object.WrittenKey
import Mathlib.Data.List.DropRight

/-!
# The notation of keys

Which texts are read as keys, and that reading and writing undo each other. A key that can be taken
apart is read back from its written form, and a text that was read is the written form of its key,
but for a slash at its head. A key that was read in a namespace is read back with and without that
namespace at hand.
-/

namespace IngressCache.Key

/-! ### Readable texts -/

/-- What stands after the last slash; everything if there is none. -/
def lastPart (s : List Char) : List Char :=
  s.rtakeWhile (· ≠ '/')

structure Readable (s : String) : Prop where
  count_le : s.toList.count '/' ≤ 1
  lastPart_ne : lastPart s.toList ≠ []

instance (s : String) : Decidable (Readable s) :=
  decidable_of_iff (s.toList.count '/' ≤ 1 ∧ lastPart s.toList ≠ [])
    ⟨fun h => ⟨h.1, h.2⟩, fun h => ⟨h.1, h.2⟩⟩

theorem lastPart_plain {s : List Char} (h : '/' ∉ s) : lastPart s = s :=
  List.rtakeWhile_eq_self_iff.2 (forall_ne_of_not_mem h)

theorem lastPart_append (p : List Char) {t : List Char} (h : '/' ∉ t) :
    lastPart (p ++ '/' :: t) = t := by
  have hrev : '/' ∉ t.reverse := fun hmem => h (List.mem_reverse.1 hmem)
  have hsplit : (t.reverse ++ '/' :: p.reverse).takeWhile (· ≠ '/') = t.reverse :=
    congrArg Prod.fst (splitSlash_append hrev p.reverse)
  unfold lastPart List.rtakeWhile
  rw [List.reverse_append, List.reverse_cons, List.append_assoc, List.singleton_append, hsplit,
    List.reverse_reverse]

variable {s : String} {k : Key}

theorem lastPart_of_parse (h : parse s = .ok k) : lastPart s.toList = k.name.toList := by
  obtain ⟨hk, rfl | ⟨-, rfl⟩⟩ := parse_eq_ok_iff.1 h
  · rw [toList_path, lastPart_append _ hk.name_plain]
  · exact lastPart_plain hk.name_plain

theorem readable_of_parse (h : parse s = .ok k) : Readable s := by
  refine ⟨count_slash_of_parse h, fun hnil => ?_⟩
  rw [lastPart_of_parse h] at hnil
  exact (legible_of_parse h).name_ne (String.toList_eq_nil_iff.1 hnil)

theorem Readable.exists_parse (h : Readable s) : ∃ k, parse s = .ok k := by
  have hlast := h.lastPart_ne
  rcases hs : splitSlash s.toList with ⟨before, _ | after⟩
  · have hplain := plain_of_splitSlash hs
    rw [← eq_of_splitSlash_none hs] at hplain
    rw [lastPart_plain hplain] at hlast
    have hname : s ≠ "" := fun he => hlast (String.toList_eq_nil_iff.2 he)
    exact ⟨⟨"", s⟩, parse_eq_ok_iff.2 ⟨⟨by simp, hplain, hname⟩, .inr ⟨rfl, rfl⟩⟩⟩
  · have heq := eq_append_of_splitSlash hs
    have hbefore := plain_of_splitSlash hs
    -- The slash in the middle is the one slash that the text may have.
    have hafter : '/' ∉ after := by
      have hcount := h.count_le
      rw [heq, List.count_append, List.count_cons_self] at hcount
      exact List.count_eq_zero.1 (by omega)
    rw [heq, lastPart_append _ hafter] at hlast
    have hform : s = path ⟨String.ofList before, String.ofList after⟩ := by
      rw [← String.toList_inj, toList_path, String.toList_ofList, String.toList_ofList]
      exact heq
    refine ⟨⟨String.ofList before, String.ofList after⟩, parse_eq_ok_iff.2 ⟨?_, .inl hform⟩⟩
    exact ⟨by simpa using hbefore, by simpa using hafter, by simpa using hlast⟩

/-! ### Writing what was read -/

theorem head?_toList_ne_slash {t : String} (h : '/' ∉ t.toList) : t.toList.head? ≠ some '/' :=
  fun hhead => h (List.mem_of_head? hhead)

/-- A text that was read is the written form of its key, behind a slash if it begins with one. -/
theorem text_of_parse_or_slash (h : parse s = .ok k) :
    if s.toList.head? = some '/' then "/" ++ k.text = s else k.text = s := by
  obtain ⟨hk, rfl | ⟨hns, rfl⟩⟩ := parse_eq_ok_iff.1 h
  · by_cases hns : k.ns = ""
    · have hpath : k.path = "/" ++ k.name := by
        unfold path
        rw [hns, String.empty_append]
      have hhead : k.path.toList.head? = some '/' := by
        rw [toList_path, hns]
        rfl
      rw [if_pos hhead, text_of_ns_empty hns, hpath]
    · have hhead : k.path.toList.head? ≠ some '/' := by
        have hne : k.ns.toList ≠ [] := fun he => hns (String.toList_eq_nil_iff.1 he)
        rw [toList_path, List.head?_append_of_ne_nil _ hne]
        exact head?_toList_ne_slash hk.ns_plain
      rw [if_neg hhead]
      exact text_of_ns_ne_empty hns
  · rw [if_neg (head?_toList_ne_slash hk.name_plain)]
    exact text_of_ns_empty hns

/-- A text is read exactly if it has at most one slash and something after the last one, and a
fault shows the text as it was. Exactly the keys whose parts have no slash, and whose name is not
empty, are read back from their written form; a text that was read is written again but for a slash
at its head. In a namespace without a slash the key keeps the namespace that it gives, or gets that
one, and its written form is read as the same key with and without the namespace. -/
theorem parse_inverts_text :
    (∀ s, (∃ k, parse s = .ok k) ↔ Readable s) ∧
    (∀ s f, parse s = .error f → f.text = s) ∧
    (∀ ns name, parse (text ⟨ns, name⟩) = .ok ⟨ns, name⟩ ↔
      '/' ∉ ns.toList ∧ '/' ∉ name.toList ∧ name ≠ "") ∧
    (∀ s k, parse s = .ok k →
      if s.toList.head? = some '/' then "/" ++ k.text = s else k.text = s) ∧
    ∀ s n own, parse s = .ok own → '/' ∉ n.toList →
      ∃ k, parseIn n s = .ok k ∧ k.name = own.name ∧
        k.ns = (if own.ns = "" then n else own.ns) ∧
        parse k.text = .ok k ∧ parseIn n k.text = .ok k ∧ (n ≠ "" → k.ns ≠ "") := by
  refine ⟨fun s => ⟨fun ⟨k, hk⟩ => readable_of_parse hk, Readable.exists_parse⟩,
    fun s f => parse_error, fun ns name => ?_, fun s k => text_of_parse_or_slash, ?_⟩
  · rw [← legible_iff ⟨ns, name⟩]
    exact ⟨legible_of_parse, parse_text⟩
  · intro s n own hown hn
    have hread := parseIn_of_parse hown n
    have hback := parse_text (legible_of_parseIn hn hread)
    refine ⟨_, hread, ?_, ?_, hback, parseIn_of_parse_eq hread hback,
      fun hne => ns_ne_of_parseIn hne hread⟩
    · split <;> rfl
    · split <;> rfl

/-- A slash at the head, a slash at the end, and one slash too many. -/
theorem parse_inverts_text_of_slashes :
    let k : Key := ⟨"default", "web"⟩
    parse "/web" = .ok ⟨"", "web"⟩ ∧ '/' ∉ "default".toList ∧
      "/" ++ text ⟨"", "web"⟩ = "/web" ∧ parseIn "default" "/web" = .ok k ∧
      parse k.text = .ok k ∧ parseIn "default" k.text = .ok k ∧
      (¬∃ k, parse "default/" = .ok k) ∧ ∃ f, parse "a/b/c" = .error f ∧ f.text = "a/b/c" := by
  intro k
  have hplain : '/' ∉ "default".toList := by decide
  obtain ⟨hgrammar, hfault, -, hwritten, hqualified⟩ := parse_inverts_text
  have hread : parse "/web" = .ok ⟨"", "web"⟩ := rfl
  obtain ⟨j, hj, hname, hns, hback, hagain, -⟩ :=
    hqualified "/web" "default" ⟨"", "web"⟩ hread hplain
  obtain rfl : j = k := by
    cases j
    exact congrArg₂ Key.mk hns hname
  refine ⟨hread, hplain, hwritten "/web" _ hread, hj, hback, hagain, ?_, _, rfl,
    hfault "a/b/c" _ rfl⟩
  rw [hgrammar]
  decide

end IngressCache.Key
