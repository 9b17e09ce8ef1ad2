import IngressCache.Reference.Resolver
import Mathlib.Data.List.Induction

/-!
# Enquiries

Lookups of the material of secrets, what they hand out, and what a sequence of them says about the
order in which the files of one secret are written: the bundle when the secret is rendered for the
first time, the parameters for key exchange at each lookup of them.
-/

namespace IngressCache

/-! ### Enquiries and what they hand out -/

inductive Enquiry
  | tls (q : Query)
  | ca (q : Query)
  | dh (q : Query)

inductive Handout
  | tls (h : BundleHandle)
  | ca (authorities : FileHandle) (revocations : Option FileHandle)
  | dh (h : FileHandle)

namespace Enquiry

def query : Enquiry → Query
  | .tls q | .ca q | .dh q => q

/-- Whether the secret has to be rendered for it. -/
def renders : Enquiry → Bool
  | .tls _ | .ca _ => true
  | .dh _ => false

def Names (p : Policy) (k : Key) (e : Enquiry) : Prop :=
  p.resolve e.query.ns e.query.reference = .ok k

theorem Names.unique {p : Policy} {j k : Key} {e : Enquiry} (hj : e.Names p j)
    (hk : e.Names p k) : j = k :=
  Except.ok.inj (hj.symm.trans hk)

/-- No enquiry renders the secret. -/
def Unrendered (p : Policy) (k : Key) (es : List Enquiry) : Prop :=
  ∀ e ∈ es, e.Names p k → e.renders = false

/-- The first enquiry that renders the secret comes after the last one for its parameters. -/
def RenderedLast (p : Policy) (k : Key) (es : List Enquiry) : Prop :=
  ∃ before e after, es = before ++ e :: after ∧ e.Names p k ∧ e.renders = true ∧
    Unrendered p k before ∧ ∀ e' ∈ after, e'.Names p k → e'.renders = true

def AsksParameters (p : Policy) (k : Key) (es : List Enquiry) : Prop :=
  ∃ e ∈ es, e.Names p k ∧ e.renders = false

variable {p : Policy} {k : Key} {es : List Enquiry} {e : Enquiry}

theorem unrendered_concat :
    Unrendered p k (es ++ [e]) ↔ Unrendered p k es ∧ (e.Names p k → e.renders = false) := by
  simp [Unrendered, or_imp, forall_and]

theorem asksParameters_concat :
    AsksParameters p k (es ++ [e]) ↔
      AsksParameters p k es ∨ e.Names p k ∧ e.renders = false := by
  simp [AsksParameters, or_and_right, exists_or]

theorem renderedLast_concat :
    RenderedLast p k (es ++ [e]) ↔
      (RenderedLast p k es ∧ (e.Names p k → e.renders = true)) ∨
        (Unrendered p k es ∧ e.Names p k ∧ e.renders = true) := by
  constructor
  · rintro ⟨before, x, after, hes, hx, hrenders, hbefore, hafter⟩
    rcases List.eq_nil_or_concat after with rfl | ⟨after, y, rfl⟩
    · obtain ⟨rfl, hlast⟩ := List.append_inj' hes rfl
      obtain rfl := (List.cons.inj hlast).1
      exact .inr ⟨hbefore, hx, hrenders⟩
    · have hassoc : before ++ x :: (after ++ [y]) = (before ++ x :: after) ++ [y] := by simp
      rw [List.concat_eq_append, hassoc] at hes
      obtain ⟨rfl, hlast⟩ := List.append_inj' hes rfl
      obtain rfl := (List.cons.inj hlast).1
      rw [List.concat_eq_append, List.forall_mem_append] at hafter
      refine .inl ⟨⟨before, x, after, rfl, hx, hrenders, hbefore, hafter.1⟩, ?_⟩
      exact hafter.2 e List.mem_cons_self
  · rintro (⟨⟨before, x, after, rfl, hx, hrenders, hbefore, hafter⟩, he⟩ | ⟨hes, he, hrenders⟩)
    · refine ⟨before, x, after ++ [e], by simp, hx, hrenders, hbefore, ?_⟩
      rw [List.forall_mem_append]
      exact ⟨hafter, fun e' he' => List.mem_singleton.1 he' ▸ he⟩
    · exact ⟨es, e, [], rfl, he, hrenders, hes, fun _ h => absurd h List.not_mem_nil⟩

theorem RenderedLast.not_unrendered (h : RenderedLast p k es) : ¬Unrendered p k es := by
  obtain ⟨before, x, after, rfl, hx, hrenders, -⟩ := h
  intro hnone
  have hx := hnone x (List.mem_append_right _ List.mem_cons_self) hx
  rw [hrenders] at hx
  cases hx

/-- Of a secret that was rendered, the bundle came last or parameters were asked for. -/
theorem renderedLast_or_asksParameters (h : ¬Unrendered p k es) :
    RenderedLast p k es ∨ AsksParameters p k es := by
  induction es using List.reverseRecOn with
  | nil => exact absurd (fun _ he => absurd he List.not_mem_nil) h
  | append_singleton es e ih =>
    rw [renderedLast_concat, asksParameters_concat]
    by_cases he : e.Names p k
    · cases hr : e.renders with
      | false => exact .inr (.inr ⟨he, rfl⟩)
      | true =>
        by_cases hes : Unrendered p k es
        · exact .inl (.inr ⟨hes, he, rfl⟩)
        · exact (ih hes).imp (fun h => .inl ⟨h, fun _ => rfl⟩) .inl
    · rw [unrendered_concat, not_and_or] at h
      rcases h with h | h
      · exact (ih h).imp (fun h => .inl ⟨h, fun h' => absurd h' he⟩) .inl
      · exact absurd (fun h' => absurd h' he) h

end Enquiry

/-! ### What a handle stands for -/

/-- Each handle names a file that has what the secret has for it. -/
def Handout.Valid (s : Secret) (d : Directory) : Handout → Prop
  | .tls h => ∃ certificate key, s.get? DataKey.certificate = some certificate ∧
      s.get? DataKey.privateKey = some key ∧
      d.content? h.filename = some (bundleOf certificate key)
  | .ca a l => (∃ c, s.get? DataKey.authorities = some c ∧ d.content? a.filename = some c) ∧
      ∀ h ∈ l, ∃ c, s.get? DataKey.revocations = some c ∧ d.content? h.filename = some c
  | .dh h => ∃ c, s.get? DataKey.dhParameters = some c ∧ d.content? h.filename = some c

/-- The secret has a bundle and parameters that are not the same. -/
def Secret.HasBoth (s : Secret) : Prop :=
  ∃ certificate key parameters, s.get? DataKey.certificate = some certificate ∧
    s.get? DataKey.privateKey = some key ∧ s.get? DataKey.dhParameters = some parameters ∧
    bundleOf certificate key ≠ parameters

/-- Handles of bundle and parameters, or of parameters that the bundle has replaced, were given out
for one secret. -/
def Enquiry.Contested (p : Policy) (secrets : Lister Secret) (es : List Enquiry) : Prop :=
  ∃ k s, secrets.find? k = some s ∧ s.HasBoth ∧ AsksParameters p k es ∧
    ((∃ q, .tls q ∈ es ∧ (Enquiry.tls q).Names p k) ∨ RenderedLast p k es)

/-! ### Lookups that succeed -/

theorem eq_ok_of_map {α β : Type} {f : α → β} {x : Except Failure α} {b : β}
    (h : x.map f = .ok b) : ∃ a, x = .ok a ∧ f a = b := by
  cases x with
  | error e => cases h
  | ok a => exact ⟨a, rfl, Except.ok.inj h⟩

theorem eq_ok_of_bind {α β : Type} {f : α → Except Failure β} {x : Except Failure α} {b : β}
    (h : x.bind f = .ok b) : ∃ a, x = .ok a ∧ f a = .ok b := by
  cases x with
  | error e => cases h
  | ok a => exact ⟨a, rfl, h⟩

theorem eq_ok_of_mapError {α : Type} {f : Failure → Failure} {x : Except Failure α} {a : α}
    (h : x.mapError f = .ok a) : x = .ok a := by
  cases x with
  | error e => cases h
  | ok b => exact h

theorem Resolution.run_eq_ok {α : Type} {policy : Policy} {store : SecretStore} {q : Query}
    {ask : SecretStore → Key → SecretStore × Except Failure α} {a : α}
    (h : (Resolution.run policy store q ask).result = .ok a) :
    ∃ k, policy.resolve q.ns q.reference = .ok k ∧ (ask store k).2 = .ok a ∧
      (Resolution.run policy store q ask).store = (ask store k).1 := by
  unfold Resolution.run at h ⊢
  cases hk : policy.resolve q.ns q.reference with
  | error f =>
    rw [hk] at h
    cases h
  | ok k =>
    simp only [hk] at h ⊢
    refine ⟨k, rfl, ?_⟩
    generalize ask store k = x at h ⊢
    obtain ⟨st, f | b⟩ := x
    · cases h
    · exact ⟨h, rfl⟩

end IngressCache
