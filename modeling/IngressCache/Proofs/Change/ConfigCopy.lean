import IngressCache.Proofs.Change.Window

/-!
# Copies of config maps

A consumer keeps a copy of the content of a tracked config map. When a snapshot asks for a full
synchronisation it takes what the lister has, otherwise it takes the new content of a snapshot
that tells of a change. The publishes alone decide whether the copy is what the lister has.
-/

namespace IngressCache

inductive TrackedMap
  | global
  | tcp
  deriving DecidableEq

def TrackedKeys.keyOf? (t : TrackedKeys) : TrackedMap → Option String
  | .global => t.global
  | .tcp => t.tcp

def TrackedKeys.brings (t : TrackedKeys) : TrackedMap → Event → Option Texts
  | .global => t.globalContent?
  | .tcp => t.tcpContent?

def Snapshot.contentOf (s : Snapshot) : TrackedMap → Content
  | .global => s.global
  | .tcp => s.tcp

/-- A publish, with the content that the lister has of the map at that time. -/
structure Publication where
  snapshot : Snapshot
  held : Option Texts

namespace Publication

variable {m : TrackedMap}

def follow (m : TrackedMap) (copy : Option Texts) (x : Publication) : Option Texts :=
  if x.snapshot.fullSync then x.held
  else if (x.snapshot.contentOf m).changed then (x.snapshot.contentOf m).new
  else copy

def lastHeld (held : Option Texts) (log : List Publication) : Option Texts :=
  log.foldl (fun _ x => x.held) held

/-- A publish that gives the consumer nothing to take over. -/
structure Quiet (m : TrackedMap) (x : Publication) : Prop where
  partial_sync : x.snapshot.fullSync = false
  unchanged : (x.snapshot.contentOf m).changed = false

/-- After the last full synchronisation came content other than the lister had at that time, and
no publish told of it. -/
def Missed (m : TrackedMap) (log : List Publication) : Prop :=
  ∃ before x after, log = before ++ x :: after ∧ x.snapshot.fullSync = true ∧
    (∀ y ∈ after, Quiet m y) ∧
    ∃ y ∈ after, (y.snapshot.contentOf m).new ≠ none ∧ (y.snapshot.contentOf m).new ≠ x.held

/-- Publishes one after the other. Each compares with the last content before it, and without a
full synchronisation the lister has the new content, or what it had before. -/
def Chained (m : TrackedMap) : Option Texts → Option Texts → List Publication → Prop
  | _, _, [] => True
  | cur, held, x :: log =>
    (x.snapshot.contentOf m).cur = cur ∧
      (x.snapshot.fullSync = false → x.held = ((x.snapshot.contentOf m).new <|> held)) ∧
      Chained m ((x.snapshot.contentOf m).new <|> cur) x.held log

theorem Chained.of_append {cur held : Option Texts} {before log : List Publication}
    (h : Chained m cur held (before ++ log)) : ∃ cur' held', Chained m cur' held' log := by
  induction before generalizing cur held with
  | nil => exact ⟨cur, held, h⟩
  | cons x before ih => exact ih h.2.2

theorem Quiet.new_eq {x : Publication} (h : Quiet m x) :
    (x.snapshot.contentOf m).new = none ∨
      (x.snapshot.contentOf m).new = (x.snapshot.contentOf m).cur := by
  have hu := h.unchanged
  unfold Content.changed at hu
  cases hnew : (x.snapshot.contentOf m).new with
  | none => exact .inl rfl
  | some v =>
    rw [hnew] at hu
    simp only [Option.isSome_some, Bool.true_and, bne_eq_false_iff_eq] at hu
    exact .inr hu.symm

/-! ### Quiet publishes -/

theorem foldl_follow_quiet {log : List Publication} (h : ∀ x ∈ log, Quiet m x)
    (copy : Option Texts) : log.foldl (follow m) copy = copy := by
  induction log with
  | nil => rfl
  | cons x log ih =>
    have hx : follow m copy x = copy := by
      have hq := h x List.mem_cons_self
      simp only [follow, hq.partial_sync, hq.unchanged, Bool.false_eq_true, if_false]
    rw [List.foldl_cons, hx]
    exact ih fun y hy => h y (List.mem_cons_of_mem _ hy)

/-- Quiet publishes bring nothing, and the lister has what it had, or they bring the content that
they compare with, and the lister has that. -/
theorem Chained.quiet {cur held : Option Texts} {log : List Publication}
    (h : Chained m cur held log) (hq : ∀ x ∈ log, Quiet m x) :
    ((∀ x ∈ log, (x.snapshot.contentOf m).new = none) ∧ lastHeld held log = held) ∨
      ((∃ x ∈ log, (x.snapshot.contentOf m).new ≠ none) ∧
        (∀ x ∈ log, (x.snapshot.contentOf m).new ≠ none →
          (x.snapshot.contentOf m).new = cur) ∧ lastHeld held log = cur) := by
  induction log generalizing held with
  | nil => exact .inl ⟨fun x hx => absurd hx List.not_mem_nil, rfl⟩
  | cons x log ih =>
    obtain ⟨hcur, hheld, hrest⟩ := h
    have hx := hq x List.mem_cons_self
    have hheld := hheld hx.partial_sync
    have hq' : ∀ y ∈ log, Quiet m y := fun y hy => hq y (List.mem_cons_of_mem _ hy)
    cases hnew : (x.snapshot.contentOf m).new with
    | none =>
      rw [hnew] at hheld hrest
      have hheld : x.held = held := hheld
      rw [hheld] at hrest
      rcases ih hrest hq' with ⟨hnone, hlast⟩ | ⟨⟨y, hy, hyn⟩, hall, hlast⟩
      · refine .inl ⟨List.forall_mem_cons.2 ⟨hnew, hnone⟩, ?_⟩
        show lastHeld x.held log = held
        rw [hheld, hlast]
      · refine .inr ⟨⟨y, List.mem_cons_of_mem _ hy, hyn⟩,
          List.forall_mem_cons.2 ⟨fun hx => absurd hnew hx, hall⟩, ?_⟩
        show lastHeld x.held log = cur
        rw [hheld, hlast]
    | some v =>
      have hv : some v = cur := by
        rw [← hcur, ← hnew]
        exact hx.new_eq.resolve_left (by simp [hnew])
      rw [hnew, hv] at hheld hrest
      have hheld : x.held = cur := by
        rw [hheld, ← hv]
        rfl
      have hrest : Chained m cur cur log := by
        rw [hheld, ← hv] at hrest
        rw [← hv]
        exact hrest
      refine .inr ⟨⟨x, List.mem_cons_self, by simp [hnew]⟩, ?_, ?_⟩
      · refine List.forall_mem_cons.2 ⟨fun _ => hnew.trans hv, ?_⟩
        rcases ih hrest hq' with ⟨hnone, -⟩ | ⟨-, hall, -⟩
        · exact fun y hy hyn => absurd (hnone y hy) hyn
        · exact hall
      · show lastHeld x.held log = cur
        rw [hheld]
        rcases ih hrest hq' with ⟨-, hlast⟩ | ⟨-, -, hlast⟩ <;> exact hlast

/-! ### The whole log -/

theorem exists_last {α : Type} (P : α → Prop) (l : List α) :
    (∀ x ∈ l, P x) ∨ ∃ before x after, l = before ++ x :: after ∧ ¬P x ∧ ∀ y ∈ after, P y := by
  induction l with
  | nil => exact .inl fun x hx => absurd hx List.not_mem_nil
  | cons a l ih =>
    rcases ih with hall | ⟨before, x, after, rfl, hx, hafter⟩
    · by_cases ha : P a
      · exact .inl (List.forall_mem_cons.2 ⟨ha, hall⟩)
      · exact .inr ⟨[], a, l, rfl, ha, hall⟩
    · exact .inr ⟨a :: before, x, after, rfl, hx, hafter⟩

theorem lastHeld_append (held : Option Texts) (before : List Publication) (x : Publication)
    (after : List Publication) : lastHeld held (before ++ x :: after) = lastHeld x.held after := by
  unfold lastHeld
  rw [List.foldl_append, List.foldl_cons]

theorem foldl_follow_append {before after : List Publication} (x : Publication)
    (hq : ∀ y ∈ after, Quiet m y) (copy : Option Texts) :
    (before ++ x :: after).foldl (follow m) copy =
      follow m (before.foldl (follow m) copy) x := by
  rw [List.foldl_append, List.foldl_cons, foldl_follow_quiet hq]

theorem Missed.copy_ne {log : List Publication} (h : Missed m log) {cur held : Option Texts}
    (hlog : Chained m cur held log) (copy : Option Texts) :
    log.foldl (follow m) copy ≠ lastHeld held log := by
  obtain ⟨before, x, after, rfl, hfull, hq, y, hy, hyn, hyh⟩ := h
  obtain ⟨cur', held', -, -, hafter⟩ := hlog.of_append
  rw [foldl_follow_append x hq, lastHeld_append, follow, if_pos hfull]
  rcases hafter.quiet hq with ⟨hnone, -⟩ | ⟨-, hall, hlast⟩
  · exact absurd (hnone y hy) hyn
  · rw [hlast, ← hall y hy hyn]
    exact hyh.symm

/-- A publish that is not quiet brings the copy up to date; what it does not bring is missed by the
quiet publishes after it. -/
theorem Chained.copy_eq {cur held : Option Texts} {before after : List Publication}
    {x : Publication} (h : Chained m cur held (before ++ x :: after)) (hx : ¬Quiet m x)
    (hq : ∀ y ∈ after, Quiet m y) (hm : ¬Missed m (before ++ x :: after)) (copy : Option Texts) :
    (before ++ x :: after).foldl (follow m) copy = lastHeld held (before ++ x :: after) := by
  obtain ⟨cur', held', -, hheld, hafter⟩ := h.of_append
  rw [foldl_follow_append x hq, lastHeld_append, follow]
  by_cases hfull : x.snapshot.fullSync = true
  · rw [if_pos hfull]
    rcases hafter.quiet hq with ⟨-, hlast⟩ | ⟨⟨y, hy, hyn⟩, hall, hlast⟩
    · exact hlast.symm
    · rw [hlast, ← hall y hy hyn]
      refine Classical.byContradiction fun hne => hm ?_
      exact ⟨before, x, after, rfl, hfull, hq, y, hy, hyn, fun he => hne he.symm⟩
  · have hpartial : x.snapshot.fullSync = false := Bool.eq_false_iff.2 hfull
    have hchanged : (x.snapshot.contentOf m).changed = true := by
      rw [← Bool.not_eq_false]
      exact fun hu => hx ⟨hpartial, hu⟩
    obtain ⟨v, hv⟩ : ∃ v, (x.snapshot.contentOf m).new = some v := by
      unfold Content.changed at hchanged
      rw [Bool.and_eq_true, Option.isSome_iff_exists] at hchanged
      exact hchanged.1
    rw [if_neg hfull, if_pos hchanged]
    have hheld := hheld hpartial
    rw [hv] at hheld hafter ⊢
    rcases hafter.quiet hq with ⟨-, hlast⟩ | ⟨-, -, hlast⟩
    · rw [hlast, hheld]
      rfl
    · rw [hlast]
      rfl

/-- Once the lister has the map, the copy is what the lister has, unless a change was missed. -/
theorem foldl_follow_eq_lastHeld_iff {log : List Publication} (h : Chained m none none log)
    (hlisted : lastHeld none log ≠ none) (copy : Option Texts) :
    log.foldl (follow m) copy = lastHeld none log ↔ ¬Missed m log := by
  refine ⟨fun heq hm => hm.copy_ne h copy heq, fun hm => ?_⟩
  rcases exists_last (Quiet m) log with hq | ⟨before, x, after, rfl, hx, hq⟩
  · rcases h.quiet hq with ⟨-, hlast⟩ | ⟨-, -, hlast⟩ <;> exact absurd hlast hlisted
  · exact h.copy_eq hx hq hm copy

end Publication

end IngressCache
