import IngressCache.Change.Signals

/-!
# Timers that all wait for the same time

When every timer waits for the same time, timers end in the order in which they were started. The
clock may go to a time in any steps then: the same signals are sent, in the same order, and at any
time those that were sent are those that were due.
-/

namespace IngressCache

theorem filter_le_append_filter_lt {l : List Nat} (h : l.Pairwise (· ≤ ·)) (t : Nat) :
    l.filter (· ≤ t) ++ l.filter (t < ·) = l := by
  induction l with
  | nil => rfl
  | cons a l ih =>
    rw [List.pairwise_cons] at h
    by_cases ha : a ≤ t
    · rw [List.filter_cons_of_pos (by simpa using ha),
        List.filter_cons_of_neg (by simpa using ha), List.cons_append, ih h.2]
    · have hnone : l.filter (· ≤ t) = [] := by
        refine List.filter_eq_nil_iff.2 fun b hb => ?_
        have hab := h.1 b hb
        simp only [decide_eq_true_eq]
        omega
      have hall : l.filter (t < ·) = l := by
        refine List.filter_eq_self.2 fun b hb => ?_
        have hab := h.1 b hb
        simp only [decide_eq_true_eq]
        omega
      rw [List.filter_cons_of_neg (by simpa using ha), hnone,
        List.filter_cons_of_pos (by simpa using ha), hall, List.nil_append]

namespace Signals

variable {s : Signals}

/-- The clock can go to a time step by step. -/
theorem moveTo_moveTo (h : s.timers.Pairwise (· ≤ ·)) {t time : Nat} (ht : t ≤ time) :
    (s.moveTo t).moveTo time = s.moveTo time := by
  have htimers : (s.timers.filter (t < ·)).filter (time < ·) = s.timers.filter (time < ·) := by
    rw [List.filter_filter]
    refine List.filter_congr fun d _ => ?_
    rw [← Bool.decide_and, decide_eq_decide]
    omega
  have hpermit : (s.timers.any (· ≤ t) || (s.timers.filter (t < ·)).any (· ≤ time)) =
      s.timers.any (· ≤ time) := by
    rw [Bool.eq_iff_iff]
    simp only [Bool.or_eq_true, List.any_eq_true, List.mem_filter, decide_eq_true_eq]
    constructor
    · rintro (⟨d, hd, hle⟩ | ⟨d, ⟨hd, -⟩, hle⟩)
      · exact ⟨d, hd, Nat.le_trans hle ht⟩
      · exact ⟨d, hd, hle⟩
    · rintro ⟨d, hd, hle⟩
      rcases Nat.lt_or_ge t d with hlt | hge
      · exact .inr ⟨d, ⟨hd, hlt⟩, hle⟩
      · exact .inl ⟨d, hd, hge⟩
  have hsent : s.timers.filter (· ≤ t) ++ (s.timers.filter (t < ·)).filter (· ≤ time) =
      s.timers.filter (· ≤ time) := by
    have hdue : s.timers.filter (· ≤ t) = (s.timers.filter (· ≤ time)).filter (· ≤ t) := by
      rw [List.filter_filter]
      refine List.filter_congr fun d _ => ?_
      rw [← Bool.decide_and, decide_eq_decide]
      omega
    have hlater : (s.timers.filter (t < ·)).filter (· ≤ time) =
        (s.timers.filter (· ≤ time)).filter (t < ·) := by
      simp only [List.filter_filter, Bool.and_comm]
    rw [hdue, hlater]
    exact filter_le_append_filter_lt (h.filter _) t
  simp only [moveTo, htimers, Bool.or_assoc, hpermit, List.append_assoc, hsent]

/-- At the time `now`, timers that each wait for the same time were started for the signals that are
due at `ds`. Each of them has been sent or is still to come. -/
structure Follows (wait now : Nat) (ds : List Nat) (s : Signals) : Prop where
  now_eq : s.now = now
  dues : s.sent ++ s.timers = ds
  sorted : s.timers.Pairwise (· ≤ ·)
  past : ∀ d ∈ s.sent, d ≤ now
  near : ∀ d ∈ s.timers, d ≤ now + wait

namespace Follows

variable {wait now : Nat} {ds : List Nat}

theorem start (wait : Nat) : Signals.start.Follows wait 0 [] :=
  ⟨rfl, rfl, .nil, by simp [Signals.start], by simp [Signals.start]⟩

theorem arm (h : s.Follows wait now ds) : (s.arm wait).Follows wait now (ds ++ [now + wait]) where
  now_eq := h.now_eq
  dues := by
    rw [← h.dues, ← h.now_eq, List.append_assoc]
    rfl
  sorted := by
    refine List.pairwise_append.2 ⟨h.sorted, List.pairwise_singleton _ _, fun d hd d' hd' => ?_⟩
    rw [List.mem_singleton.1 hd', h.now_eq]
    exact h.near d hd
  past := h.past
  near := by
    intro d hd
    rcases List.mem_append.1 hd with hd | hd
    · exact h.near d hd
    · exact Nat.le_of_eq (by rw [List.mem_singleton.1 hd, h.now_eq])

theorem moveTo (h : s.Follows wait now ds) {time : Nat} (htime : now ≤ time) :
    (s.moveTo time).Follows wait time ds where
  now_eq := rfl
  dues := by
    rw [← h.dues]
    show s.sent ++ s.timers.filter (· ≤ time) ++ s.timers.filter (time < ·) = _
    rw [List.append_assoc, filter_le_append_filter_lt h.sorted]
  sorted := h.sorted.filter _
  past := by
    intro d hd
    rcases List.mem_append.1 hd with hd | hd
    · exact Nat.le_trans (h.past d hd) htime
    · simpa using (List.mem_filter.1 hd).2
  near := by
    intro d hd
    have hnear := h.near d (List.mem_filter.1 hd).1
    omega

/-- When time has passed, every signal that was due by then has been sent, and no other. -/
theorem sent_moveTo (h : s.Follows wait now ds) {time : Nat} (htime : now ≤ time) :
    (s.moveTo time).sent = ds.filter (· ≤ time) := by
  have hsent : s.sent.filter (· ≤ time) = s.sent :=
    List.filter_eq_self.2 fun d hd => by simpa using Nat.le_trans (h.past d hd) htime
  rw [← h.dues, List.filter_append, hsent]
  rfl

end Follows

end Signals

end IngressCache
