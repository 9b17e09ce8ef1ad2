import IngressCache.Failure
import Mathlib.Data.List.TakeWhile

/-!
# Written keys

Which keys are read back from their written form, and what a text that can be read says about
the key it stands for. Written forms of legible keys are different for different keys, so a
table may be indexed by them.
-/

namespace IngressCache.Key

/-- The written form can be taken apart again. -/
structure Legible (k : Key) : Prop where
  ns_plain : '/' ∉ k.ns.toList
  name_plain : '/' ∉ k.name.toList
  name_ne : k.name ≠ ""

/-- A legible key with a namespace: the key of an object that the cluster can hold. -/
structure Qualified (k : Key) : Prop extends Legible k where
  ns_ne : k.ns ≠ ""

theorem legible_iff (k : Key) :
    k.Legible ↔ '/' ∉ k.ns.toList ∧ '/' ∉ k.name.toList ∧ k.name ≠ "" :=
  ⟨fun h => ⟨h.ns_plain, h.name_plain, h.name_ne⟩, fun h => ⟨h.1, h.2.1, h.2.2⟩⟩

theorem qualified_iff (k : Key) : k.Qualified ↔ k.Legible ∧ k.ns ≠ "" :=
  ⟨fun h => ⟨h.toLegible, h.ns_ne⟩, fun h => ⟨h.1, h.2⟩⟩

instance (k : Key) : Decidable k.Legible := decidable_of_iff' _ (legible_iff k)

instance (k : Key) : Decidable k.Qualified := decidable_of_iff' _ (qualified_iff k)

/-! ### Taking texts apart -/

theorem forall_ne_of_not_mem {x : Char} {s : List Char} (h : x ∉ s) :
    ∀ c ∈ s, decide (c ≠ x) = true := by
  intro c hc
  have hne : c ≠ x := fun e => h (e ▸ hc)
  exact decide_eq_true hne

theorem takeWhile_plain {s : List Char} (h : '/' ∉ s) : s.takeWhile (· ≠ '/') = s :=
  List.takeWhile_eq_self_iff.2 (forall_ne_of_not_mem h)

theorem dropWhile_plain {s : List Char} (h : '/' ∉ s) : s.dropWhile (· ≠ '/') = [] :=
  List.dropWhile_eq_nil_iff.2 (forall_ne_of_not_mem h)

theorem splitSlash_plain {s : List Char} (h : '/' ∉ s) : splitSlash s = (s, none) := by
  simp only [splitSlash, takeWhile_plain h, dropWhile_plain h, List.tail?_nil]

theorem splitSlash_append {p : List Char} (h : '/' ∉ p) (t : List Char) :
    splitSlash (p ++ '/' :: t) = (p, some t) := by
  have hp := forall_ne_of_not_mem h
  simp only [splitSlash, List.takeWhile_append_of_pos hp, List.dropWhile_append_of_pos hp]
  simp

theorem eq_append_of_splitSlash {s p t : List Char} (h : splitSlash s = (p, some t)) :
    s = p ++ '/' :: t := by
  simp only [splitSlash, Prod.mk.injEq] at h
  obtain ⟨hp, ht⟩ := h
  have hall := List.takeWhile_append_dropWhile (p := fun c => decide (c ≠ '/')) (l := s)
  have hhead := List.head?_dropWhile_not (fun c => decide (c ≠ '/')) s
  cases hd : s.dropWhile (fun c => decide (c ≠ '/')) with
  | nil =>
    rw [hd] at ht
    cases ht
  | cons c r =>
    rw [hd] at ht hhead hall
    have hc : c = '/' := by simpa using hhead
    have hr : r = t := by simpa using ht
    rw [← hall, hp, hc, hr]

theorem plain_of_splitSlash {s p : List Char} {t : Option (List Char)}
    (h : splitSlash s = (p, t)) : '/' ∉ p := by
  have hp : s.takeWhile (· ≠ '/') = p := congrArg Prod.fst h
  rw [← hp]
  intro hmem
  simpa using List.mem_takeWhile_imp hmem

theorem eq_of_splitSlash_none {s p : List Char} (h : splitSlash s = (p, none)) : s = p := by
  have hp : s.takeWhile (· ≠ '/') = p := congrArg Prod.fst h
  have ht : (s.dropWhile (· ≠ '/')).tail? = none := congrArg Prod.snd h
  rw [← hp]
  refine (List.takeWhile_append_dropWhile (p := (· ≠ '/'))).symm.trans ?_
  cases hd : s.dropWhile (· ≠ '/') with
  | nil => exact List.append_nil _
  | cons c cs =>
    rw [hd] at ht
    cases ht

/-! ### Reading back -/

theorem text_eq_path {k : Key} (h : k.Qualified) : k.text = k.path :=
  text_of_ns_ne_empty h.ns_ne

theorem toList_path (k : Key) : k.path.toList = k.ns.toList ++ '/' :: k.name.toList := by
  simp [path, String.toList_append]

theorem parse_path {k : Key} (h : k.Legible) : parse k.path = .ok k := by
  have hname : ¬(k.name.toList = [] ∨ '/' ∈ k.name.toList) := by
    rintro (he | hs)
    · exact h.name_ne (String.toList_eq_nil_iff.1 he)
    · exact h.name_plain hs
  unfold parse
  rw [toList_path, splitSlash_append h.ns_plain]
  simp only [if_neg hname, String.ofList_toList]

theorem parse_text {k : Key} (h : k.Legible) : parse k.text = .ok k := by
  by_cases hns : k.ns = ""
  · have hname : k.name.toList ≠ [] := fun he => h.name_ne (String.toList_eq_nil_iff.1 he)
    unfold parse
    rw [text_of_ns_empty hns, splitSlash_plain h.name_plain]
    simp only [if_neg hname, String.ofList_toList]
    rw [← hns]
  · rw [text_of_ns_ne_empty hns]
    exact parse_path h

theorem require_text {k : Key} (h : k.Legible) : require k.text = .ok k := by
  unfold require
  rw [parse_text h]
  rfl

theorem text_injective {j k : Key} (hj : j.Legible) (hk : k.Legible) (h : j.text = k.text) :
    j = k := by
  have hp := parse_text hj
  rw [h, parse_text hk] at hp
  exact (Except.ok.inj hp).symm

/-! ### What a text that was read says -/

/-- A text is read as a key that can be taken apart again, and it is one of the forms of that key:
with a slash, or the bare name where there is no namespace. -/
theorem parse_eq_ok_iff {s : String} {k : Key} :
    parse s = .ok k ↔ k.Legible ∧ (s = k.path ∨ k.ns = "" ∧ s = k.name) := by
  constructor
  · intro h
    unfold parse at h
    rcases hs : splitSlash s.toList with ⟨before, _ | after⟩
    · have hbefore := plain_of_splitSlash hs
      rw [hs] at h
      simp only at h
      split at h
      · cases h
      · rename_i hne
        obtain rfl := Except.ok.inj h
        have hform : s = String.ofList before := by
          rw [← eq_of_splitSlash_none hs, String.ofList_toList]
        exact ⟨⟨by simp, by simpa using hbefore, by simpa using hne⟩, .inr ⟨rfl, hform⟩⟩
    · have hbefore := plain_of_splitSlash hs
      rw [hs] at h
      simp only at h
      split at h
      · cases h
      · rename_i hne
        rw [not_or] at hne
        obtain rfl := Except.ok.inj h
        have hform : s = path ⟨String.ofList before, String.ofList after⟩ := by
          rw [← String.toList_inj, toList_path, String.toList_ofList, String.toList_ofList]
          exact eq_append_of_splitSlash hs
        exact ⟨⟨by simpa using hbefore, by simpa using hne.2, by simpa using hne.1⟩, .inl hform⟩
  · rintro ⟨hk, rfl | ⟨hns, rfl⟩⟩
    · exact parse_path hk
    · rw [← text_of_ns_empty hns]
      exact parse_text hk

theorem legible_of_parse {s : String} {k : Key} (h : parse s = .ok k) : k.Legible :=
  (parse_eq_ok_iff.1 h).1

theorem plain_of_parse {s : String} {k : Key} (h : parse s = .ok k) :
    '/' ∉ k.name.toList ∧ k.name ≠ "" :=
  ⟨(legible_of_parse h).name_plain, (legible_of_parse h).name_ne⟩

/-- A text that names a namespace is the written form of its key: nothing of it is lost. -/
theorem text_of_parse {s : String} {k : Key} (h : parse s = .ok k) (hns : k.ns ≠ "") :
    k.text = s := by
  obtain ⟨-, rfl | ⟨hempty, -⟩⟩ := parse_eq_ok_iff.1 h
  · exact text_of_ns_ne_empty hns
  · exact absurd hempty hns

theorem count_slash_path {k : Key} (h : k.Legible) : k.path.toList.count '/' = 1 := by
  rw [toList_path, List.count_append, List.count_cons_self,
    List.count_eq_zero_of_not_mem h.ns_plain, List.count_eq_zero_of_not_mem h.name_plain]

theorem count_slash_of_parse {s : String} {k : Key} (h : parse s = .ok k) :
    s.toList.count '/' ≤ 1 := by
  obtain ⟨hk, rfl | ⟨-, rfl⟩⟩ := parse_eq_ok_iff.1 h
  · exact (count_slash_path hk).le
  · rw [List.count_eq_zero_of_not_mem hk.name_plain]
    exact Nat.zero_le 1

/-- A namespace with a slash is lost in the written form: no key is read from it. -/
theorem parse_text_of_slash {k : Key} (hns : '/' ∈ k.ns.toList) : ∃ f, parse k.text = .error f := by
  cases hparse : parse k.text with
  | error f => exact ⟨f, rfl⟩
  | ok j =>
    have hcount := count_slash_of_parse hparse
    have hne : k.ns ≠ "" := by
      intro he
      rw [he] at hns
      cases hns
    have hpos : 0 < k.ns.toList.count '/' := List.count_pos_iff.2 hns
    rw [text_of_ns_ne_empty hne, toList_path, List.count_append, List.count_cons_self] at hcount
    omega

/-! ### Reading in a namespace -/

section
variable {d s : String} {k : Key}

theorem parseIn_of_parse_error {f : KeyFault} (h : parse s = .error f) (d : String) :
    parseIn d s = .error f := by
  unfold parseIn
  rw [h]
  rfl

theorem parseIn_of_parse {own : Key} (h : parse s = .ok own) (d : String) :
    parseIn d s = .ok (if own.ns = "" then { own with ns := d } else own) := by
  unfold parseIn
  rw [h]
  rfl

theorem parseIn_eq_ok_iff :
    parseIn d s = .ok k ↔
      ∃ own, parse s = .ok own ∧ (if own.ns = "" then { own with ns := d } else own) = k := by
  cases h : parse s with
  | error f =>
    rw [parseIn_of_parse_error h]
    exact ⟨fun hk => (nomatch hk), fun ⟨_, hown, _⟩ => (nomatch hown)⟩
  | ok own =>
    rw [parseIn_of_parse h, Except.ok.injEq]
    exact ⟨fun hk => ⟨own, rfl, hk⟩, fun ⟨_, hown, hk⟩ => Except.ok.inj hown ▸ hk⟩

theorem plain_of_parseIn (h : parseIn d s = .ok k) : '/' ∉ k.name.toList ∧ k.name ≠ "" := by
  obtain ⟨own, hown, rfl⟩ := parseIn_eq_ok_iff.1 h
  have hplain := plain_of_parse hown
  split <;> exact hplain

theorem legible_of_parseIn (hd : '/' ∉ d.toList) (h : parseIn d s = .ok k) : k.Legible := by
  obtain ⟨own, hown, rfl⟩ := parseIn_eq_ok_iff.1 h
  have hlegible := legible_of_parse hown
  split
  · exact ⟨hd, hlegible.name_plain, hlegible.name_ne⟩
  · exact hlegible

theorem ns_ne_of_parseIn (hd : d ≠ "") (h : parseIn d s = .ok k) : k.ns ≠ "" := by
  obtain ⟨own, -, rfl⟩ := parseIn_eq_ok_iff.1 h
  split
  · exact hd
  · assumption

/-- Any other text of the key that was read is read in the same way. -/
theorem parseIn_of_parse_eq (h : parseIn d s = .ok k) {t : String} (ht : parse t = .ok k) :
    parseIn d t = .ok k := by
  rw [parseIn_of_parse ht]
  by_cases hns : k.ns = ""
  · have hd : d = "" := by
      by_contra hd
      exact ns_ne_of_parseIn hd h hns
    rw [if_pos hns, hd, ← hns]
  · rw [if_neg hns]

end

/-! ### Keys that share a written form -/

/-- The written form of a legible key has one slash, so it is that of no other key with a plain
name. -/
theorem eq_of_path_eq {j k : Key} (hj : '/' ∉ j.name.toList) (hk : k.Legible)
    (h : j.path = k.path) : j = k := by
  have hlist := congrArg String.toList h
  rw [toList_path, toList_path] at hlist
  have hplain : '/' ∉ j.ns.toList := by
    have hcount := congrArg (List.count '/') hlist
    simp only [List.count_append, List.count_cons_self, List.count_eq_zero_of_not_mem hj,
      List.count_eq_zero_of_not_mem hk.ns_plain,
      List.count_eq_zero_of_not_mem hk.name_plain] at hcount
    exact List.count_eq_zero.1 (by omega)
  have hsplit := congrArg splitSlash hlist
  rw [splitSlash_append hplain, splitSlash_append hk.ns_plain] at hsplit
  obtain ⟨hn, hm⟩ := Prod.mk.inj hsplit
  have hns := String.toList_inj.1 hn
  have hname := String.toList_inj.1 (Option.some.inj hm)
  cases j
  cases k
  cases hns
  cases hname
  rfl

theorem eq_of_text_eq {j k : Key} (hj : '/' ∉ j.name.toList) (hk : k.Qualified)
    (h : j.text = k.text) : j = k := by
  rw [text_eq_path hk] at h
  by_cases hns : j.ns = ""
  · have hlist := congrArg String.toList h
    rw [text_of_ns_empty hns, toList_path] at hlist
    exact absurd (hlist ▸ List.mem_append_right _ List.mem_cons_self) hj
  · rw [text_of_ns_ne_empty hns] at h
    exact eq_of_path_eq hj hk.toLegible h

end IngressCache.Key
