import IngressCache.Proofs.Object.WrittenKey
import IngressCache.Reference.Policy

/-!
# Access to namespaces

A reference means one secret, whatever the policy. The policy only decides whether the namespace
of that secret may be read, and what it denies depends on no more than the two namespaces. So a
reference that is accepted can be replaced by the full name of what it means.
-/

namespace IngressCache.Policy

/-- An object of the namespace `d` may read secrets of `ns`. -/
def Admits (p : Policy) (d ns : String) : Prop :=
  p.allowCross = true ∨ d = "" ∨ ns = d

instance (p : Policy) (d ns : String) : Decidable (p.Admits d ns) :=
  inferInstanceAs (Decidable (_ ∨ _ ∨ _))

def Denied (answer : Except Failure Key) : Prop :=
  ∃ f, answer = .error f ∧ f.toClass = .denied

/-! ### What a policy answers -/

/-- The reference is read in the default namespace first, and admitted or denied after that. -/
theorem resolve_eq (p : Policy) (d reference : String) :
    p.resolve d reference = match Key.parseIn d reference with
      | .error f => .error (.badKey f)
      | .ok k => if p.Admits d k.ns then .ok k else .error (.denied reference d k.ns) := by
  unfold resolve Key.require
  cases hparse : Key.parse reference with
  | error f =>
    rw [Key.parseIn_of_parse_error hparse]
    rfl
  | ok own =>
    rw [Key.parseIn_of_parse hparse]
    simp only [Except.mapError, bind, Except.bind]
    by_cases hd : d = ""
    · have hsame : (if own.ns = "" then { own with ns := d } else own) = own := by
        split
        · rename_i hns
          rw [hd, ← hns]
        · rfl
      rw [hsame, if_pos hd, if_pos (.inr (.inl hd))]
    · rw [if_neg hd]
      by_cases hns : own.ns = ""
      · simp only [if_pos hns]
        rw [if_pos (.inr (.inr rfl))]
      · simp only [if_neg hns, Admits, hd, false_or]

variable {p : Policy} {d reference : String} {k : Key}

theorem resolve_eq_ok_iff :
    p.resolve d reference = .ok k ↔ Key.parseIn d reference = .ok k ∧ p.Admits d k.ns := by
  rw [resolve_eq]
  cases Key.parseIn d reference with
  | error f => simp
  | ok j =>
    simp only [Except.ok.injEq]
    constructor
    · intro h
      split at h
      · rename_i hadmits
        obtain rfl := Except.ok.inj h
        exact ⟨rfl, hadmits⟩
      · cases h
    · rintro ⟨rfl, hadmits⟩
      exact if_pos hadmits

theorem denied_resolve_iff :
    Denied (p.resolve d reference) ↔
      ∃ k, Key.parseIn d reference = .ok k ∧ ¬p.Admits d k.ns := by
  rw [resolve_eq]
  cases Key.parseIn d reference with
  | error f =>
    refine ⟨fun ⟨g, hg, hclass⟩ => ?_, fun ⟨k, hk, _⟩ => (nomatch hk)⟩
    obtain rfl := Except.error.inj hg
    cases hclass
  | ok j =>
    simp only [Except.ok.injEq, exists_eq_left']
    constructor
    · rintro ⟨g, hg, -⟩ hadmits
      rw [if_pos hadmits] at hg
      cases hg
    · intro hadmits
      exact ⟨.denied reference d j.ns, if_neg hadmits, rfl⟩

/-! ### Where an accepted reference leads -/

theorem plain_of_resolve (h : p.resolve d reference = .ok k) :
    '/' ∉ k.name.toList ∧ k.name ≠ "" :=
  Key.plain_of_parseIn (resolve_eq_ok_iff.1 h).1

theorem legible_of_resolve (hd : '/' ∉ d.toList) (h : p.resolve d reference = .ok k) :
    k.Legible :=
  Key.legible_of_parseIn hd (resolve_eq_ok_iff.1 h).1

theorem admits_iff_of_confined (hp : p.allowCross = false) (hd : d ≠ "") {ns : String} :
    p.Admits d ns ↔ ns = d := by
  unfold Admits
  simp [hp, hd]

/-- Without access across namespaces a reference leads nowhere but to the own namespace. -/
theorem ns_of_resolve (hp : p.allowCross = false) (hd : d ≠ "")
    (h : p.resolve d reference = .ok k) : k.ns = d :=
  (admits_iff_of_confined hp hd).1 (resolve_eq_ok_iff.1 h).2

theorem qualified_of_resolve (hp : p.allowCross = false) (hd : d ≠ "") (hplain : '/' ∉ d.toList)
    (h : p.resolve d reference = .ok k) : k.Qualified :=
  ⟨legible_of_resolve hplain h, ns_of_resolve hp hd h ▸ hd⟩

/-- The full name of a secret is a reference to it. -/
theorem resolve_path (hd : '/' ∉ d.toList) (h : p.resolve d reference = .ok k) :
    p.resolve d k.path = .ok k := by
  obtain ⟨hread, hadmits⟩ := resolve_eq_ok_iff.1 h
  have hpath := Key.parse_path (Key.legible_of_parseIn hd hread)
  exact resolve_eq_ok_iff.2 ⟨Key.parseIn_of_parse_eq hread hpath, hadmits⟩

/-! ### What is denied -/

/-- A denied reference gives the namespace that it is denied for. -/
theorem parse_of_not_admits (hread : Key.parseIn d reference = .ok k)
    (hadmits : ¬p.Admits d k.ns) : Key.parse reference = .ok k ∧ k.ns ≠ "" := by
  obtain ⟨own, hown, rfl⟩ := Key.parseIn_eq_ok_iff.1 hread
  by_cases hns : own.ns = ""
  · rw [if_pos hns] at hadmits
    exact absurd (.inr (.inr rfl)) hadmits
  · rw [if_neg hns]
    exact ⟨hown, hns⟩

theorem denied_iff_of_confined (hp : p.allowCross = false) :
    Denied (p.resolve d reference) ↔
      d ≠ "" ∧ ∃ k, Key.parse reference = .ok k ∧ k.ns ≠ "" ∧ k.ns ≠ d := by
  rw [denied_resolve_iff]
  constructor
  · rintro ⟨k, hread, hadmits⟩
    obtain ⟨hparse, hns⟩ := parse_of_not_admits hread hadmits
    have hd : d ≠ "" := fun he => hadmits (.inr (.inl he))
    exact ⟨hd, k, hparse, hns, fun he => hadmits (.inr (.inr he))⟩
  · rintro ⟨hd, k, hparse, hns, hne⟩
    refine ⟨k, ?_, fun hadmits => hne ((admits_iff_of_confined hp hd).1 hadmits)⟩
    rw [Key.parseIn_of_parse hparse, if_neg hns]

theorem resolve_of_not_denied {q : Policy} (hq : q.allowCross = true)
    (h : ¬Denied (p.resolve d reference)) : q.resolve d reference = p.resolve d reference := by
  rw [denied_resolve_iff] at h
  rw [resolve_eq, resolve_eq]
  cases hread : Key.parseIn d reference with
  | error f => rfl
  | ok k =>
    have hadmits : p.Admits d k.ns := by
      by_contra hnot
      exact h ⟨k, hread, hnot⟩
    simp only [if_pos hadmits]
    exact if_pos (.inl hq)

/-- Without access across namespaces, an object of a namespace is led to the secrets that its
references mean in that namespace and that lie in it, and to no others. It is denied exactly the
references that can be read and give another namespace; a controller is denied nothing. With access,
what was denied is accepted as it stands, and all else is answered as before. Under either policy
the full name of what a reference leads to leads there too. -/
theorem resolve_confined_monotone_canonical (d reference : String) (hd : '/' ∉ d.toList) :
    let own := resolve ⟨false⟩ d reference
    let any := resolve ⟨true⟩ d reference
    (d ≠ "" → ∀ k, own = .ok k ↔ k.ns = d ∧ Key.parseIn d reference = .ok k) ∧
      (Denied own ↔ d ≠ "" ∧ ∃ k, Key.parse reference = .ok k ∧ k.ns ≠ "" ∧ k.ns ≠ d) ∧
      (Denied own → ∃ k, Key.parse reference = .ok k ∧ any = .ok k) ∧
      (¬Denied own → any = own) ∧
      ∀ (p : Policy) k, p.resolve d reference = .ok k → p.resolve d k.path = .ok k := by
  intro own any
  refine ⟨fun hne k => ?_, denied_iff_of_confined rfl, fun hdenied => ?_,
    resolve_of_not_denied rfl, fun p k => resolve_path hd⟩
  · rw [and_comm, ← admits_iff_of_confined (p := ⟨false⟩) rfl hne]
    exact resolve_eq_ok_iff
  · obtain ⟨k, hread, hadmits⟩ := denied_resolve_iff.1 hdenied
    exact ⟨k, (parse_of_not_admits hread hadmits).1, resolve_eq_ok_iff.2 ⟨hread, .inl rfl⟩⟩

/-- One secret under its bare name, and one of another namespace. -/
theorem resolve_confined_monotone_canonical_of_shop :
    '/' ∉ "shop".toList ∧ resolve ⟨false⟩ "shop" "/ca" = .ok ⟨"shop", "ca"⟩ ∧
      resolve ⟨false⟩ "shop" "shop/ca" = .ok ⟨"shop", "ca"⟩ ∧
      resolve ⟨true⟩ "shop" "/ca" = .ok ⟨"shop", "ca"⟩ ∧
      Denied (resolve ⟨false⟩ "shop" "other/ca") ∧
      resolve ⟨true⟩ "shop" "other/ca" = .ok ⟨"other", "ca"⟩ := by
  have hshop : '/' ∉ "shop".toList := by decide
  obtain ⟨haccepted, hdenied, -, hsame, hcanonical⟩ :=
    resolve_confined_monotone_canonical "shop" "/ca" hshop
  obtain ⟨-, hother, hopened, -⟩ := resolve_confined_monotone_canonical "shop" "other/ca" hshop
  have hbare : resolve ⟨false⟩ "shop" "/ca" = .ok ⟨"shop", "ca"⟩ :=
    (haccepted (by decide) _).2 ⟨rfl, rfl⟩
  have hfar : Denied (resolve ⟨false⟩ "shop" "other/ca") :=
    hother.2 ⟨by decide, ⟨"other", "ca"⟩, rfl, by decide, by decide⟩
  obtain ⟨k, hk, hany⟩ := hopened hfar
  obtain rfl := Except.ok.inj hk
  refine ⟨hshop, hbare, hcanonical _ _ hbare, (hsame ?_).trans hbare, hfar, hany⟩
  rintro ⟨f, hf, -⟩
  exact nomatch hbare.symm.trans hf

end IngressCache.Policy
