/-!
# Runs of steps

A run takes one step after the other and ends where a step cannot be taken in the state that it
meets.
-/

namespace IngressCache

variable {σ μ : Type} {step? : σ → μ → Option σ} {s s' : σ}

theorem foldlM_cons_of_some {m : μ} (h : step? s m = some s') (ms : List μ) :
    (m :: ms).foldlM step? s = ms.foldlM step? s' := by
  rw [List.foldlM_cons, h]
  rfl

theorem foldlM_cons_eq_some {m : μ} {ms : List μ} (h : (m :: ms).foldlM step? s = some s') :
    ∃ t, step? s m = some t ∧ ms.foldlM step? t = some s' := by
  rw [List.foldlM_cons] at h
  exact Option.bind_eq_some_iff.1 h

theorem foldlM_append_of_some {ms : List μ} (h : ms.foldlM step? s = some s') (ns : List μ) :
    (ms ++ ns).foldlM step? s = ns.foldlM step? s' := by
  rw [List.foldlM_append, h]
  rfl

theorem foldlM_concat_eq_some {m : μ} {ms : List μ} (h : (ms ++ [m]).foldlM step? s = some s') :
    ∃ t, ms.foldlM step? s = some t ∧ step? t m = some s' := by
  rw [List.foldlM_append] at h
  obtain ⟨t, ht, h⟩ := Option.bind_eq_some_iff.1 h
  obtain ⟨u, hu, h⟩ := foldlM_cons_eq_some h
  obtain rfl := Option.some.inj h
  exact ⟨t, ht, hu⟩

/-- What every step of a kind preserves, every run of such steps preserves. -/
theorem foldlM_preserves_of_forall {P : σ → Prop} {Q : μ → Prop}
    (hstep : ∀ s m t, Q m → step? s m = some t → P s → P t) {ms : List μ} (hms : ∀ m ∈ ms, Q m)
    (hrun : ms.foldlM step? s = some s') (h : P s) : P s' := by
  induction ms generalizing s with
  | nil =>
    obtain rfl := Option.some.inj hrun
    exact h
  | cons m ms ih =>
    obtain ⟨t, ht, hrun⟩ := foldlM_cons_eq_some hrun
    rw [List.forall_mem_cons] at hms
    exact ih hms.2 hrun (hstep s m t hms.1 ht h)

/-- What every step preserves, every run preserves. -/
theorem foldlM_preserves {P : σ → Prop} (hstep : ∀ s m t, step? s m = some t → P s → P t)
    {ms : List μ} (hrun : ms.foldlM step? s = some s') (h : P s) : P s' :=
  foldlM_preserves_of_forall (Q := fun _ => True) (fun s m t _ => hstep s m t)
    (fun _ _ => trivial) hrun h

end IngressCache
