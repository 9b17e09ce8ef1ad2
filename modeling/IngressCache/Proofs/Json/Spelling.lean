import Mathlib.Tactic.IntervalCases
import IngressCache.Json.Scan
import IngressCache.Json.Value

/-!
# Spellings of a text

A character of a text may stand for itself, as an escape of one letter, or as one or two numeric
escapes. The scanner reads each spelling, and what is written is one of them.
-/

namespace IngressCache.Json

/-- Four hexadecimal digits that make a number. -/
def CodeUnit (u : List Char) (n : Nat) : Prop :=
  unit16 u = .ok (n, [])

/-- A spelling of the characters of a text, with the mark that closes it. -/
inductive Spells : List Char → List Char → Prop
  | close : Spells ['"'] []
  | plain {c : Char} {q t : List Char} (hc : ¬ c < ' ' ∧ c ≠ '"' ∧ c ≠ '\\') (h : Spells q t) :
      Spells (c :: q) (c :: t)
  | short {e c : Char} {q t : List Char} (he : shortEscape? e = some c) (h : Spells q t) :
      Spells ('\\' :: e :: q) (c :: t)
  | unit {n : Nat} {u q t : List Char} (hu : CodeUnit u n) (hn : n < 0xd800 ∨ 0xdfff < n)
      (h : Spells q t) : Spells ('\\' :: 'u' :: (u ++ q)) (Char.ofNat n :: t)
  | pair {n m : Nat} {u v q t : List Char} (hu : CodeUnit u n) (hv : CodeUnit v m)
      (hn : 0xd800 ≤ n ∧ n ≤ 0xdbff) (hm : 0xdc00 ≤ m ∧ m ≤ 0xdfff) (h : Spells q t) :
      Spells ('\\' :: 'u' :: (u ++ '\\' :: 'u' :: (v ++ q)))
        (Char.ofNat (0x10000 + (n - 0xd800) * 0x400 + (m - 0xdc00)) :: t)

/-! ### Reading a spelling -/

theorem CodeUnit.append {u : List Char} {n : Nat} (h : CodeUnit u n) (s : List Char) :
    unit16 (u ++ s) = .ok (n, s) := by
  unfold CodeUnit unit16 at h
  match u with
  | a :: b :: c :: d :: rest =>
    simp only at h
    split at h
    · simp only [Except.ok.injEq, Prod.mk.injEq] at h
      obtain ⟨rfl, rfl⟩ := h
      simp [unit16, *]
    · cases h

theorem numericEscape_unit {u : List Char} {n : Nat} (hu : CodeUnit u n)
    (hn : n < 0xd800 ∨ 0xdfff < n) (s : List Char) :
    numericEscape (u ++ s) = .ok (Char.ofNat n, s) := by
  have h1 : ¬ (0xdc00 ≤ n ∧ n ≤ 0xdfff) := by omega
  have h2 : n < 0xd800 ∨ 0xdbff < n := by omega
  simp only [numericEscape, hu.append, bind, Except.bind, if_neg h1, if_pos h2]

theorem numericEscape_pair {u v : List Char} {n m : Nat} (hu : CodeUnit u n) (hv : CodeUnit v m)
    (hn : 0xd800 ≤ n ∧ n ≤ 0xdbff) (hm : 0xdc00 ≤ m ∧ m ≤ 0xdfff) (s : List Char) :
    numericEscape (u ++ '\\' :: 'u' :: (v ++ s)) =
      .ok (Char.ofNat (0x10000 + (n - 0xd800) * 0x400 + (m - 0xdc00)), s) := by
  have h1 : ¬ (0xdc00 ≤ n ∧ n ≤ 0xdfff) := by omega
  have h2 : ¬ (n < 0xd800 ∨ 0xdbff < n) := by omega
  have h3 : ¬ (m < 0xdc00 ∨ 0xdfff < m) := by omega
  simp only [numericEscape, hu.append, hv.append, bind, Except.bind, if_neg h1, if_neg h2,
    if_neg h3]

/-- The scanner reads a spelling up to its closing mark and leaves what comes after it. -/
theorem textFrom_spells {q t : List Char} (h : Spells q t) (s : List Char) (fuel : Nat)
    (hf : t.length < fuel) : textFrom fuel (q ++ s) = .ok (t, s) := by
  induction h generalizing fuel with
  | close =>
    obtain ⟨fuel, rfl⟩ := Nat.exists_eq_add_one.mpr (Nat.zero_lt_of_lt hf)
    simp [textFrom]
  | @plain c q t hc h ih =>
    obtain ⟨fuel, rfl⟩ := Nat.exists_eq_add_one.mpr (Nat.zero_lt_of_lt hf)
    have hi := ih fuel (by simpa using hf)
    simp [textFrom, hc, hi, bind, Except.bind]
  | @short e c q t he h ih =>
    obtain ⟨fuel, rfl⟩ := Nat.exists_eq_add_one.mpr (Nat.zero_lt_of_lt hf)
    have hi := ih fuel (by simpa using hf)
    have hu : e ≠ 'u' := by
      rintro rfl
      cases he
    simp [textFrom, hu, he, hi, bind, Except.bind]
  | @unit n u q t hu hn h ih =>
    obtain ⟨fuel, rfl⟩ := Nat.exists_eq_add_one.mpr (Nat.zero_lt_of_lt hf)
    have hi := ih fuel (by simpa using hf)
    simp [textFrom, numericEscape_unit hu hn, hi, bind, Except.bind]
  | @pair n m u v q t hu hv hn hm h ih =>
    obtain ⟨fuel, rfl⟩ := Nat.exists_eq_add_one.mpr (Nat.zero_lt_of_lt hf)
    have hi := ih fuel (by simpa using hf)
    simp [textFrom, numericEscape_pair hu hv hn hm, hi, bind, Except.bind]

theorem Spells.length_lt {q t : List Char} (h : Spells q t) : t.length < q.length := by
  induction h with
  | close => simp
  | plain hc h ih => simpa using ih
  | short he h ih => simp; omega
  | unit hu hn h ih => simp; omega
  | pair hu hv hn hm h ih => simp; omega

theorem text_spells {q t : List Char} (h : Spells q t) (s : List Char) :
    text (q ++ s) = .ok (String.ofList t, s) := by
  have hl := h.length_lt
  have hf : t.length < (q ++ s).length + 1 := by
    rw [List.length_append]
    omega
  simp only [text, textFrom_spells h s _ hf, bind, Except.bind]

/-! ### What is written is a spelling -/

theorem unit_controlEscape (n : Nat) (h : n < 32) :
    CodeUnit (List.replicate (4 - (Text.hexDigits n).length) '0' ++ Text.hexDigits n) n := by
  unfold CodeUnit
  interval_cases n <;> rfl

theorem Spells.escape {q t : List Char} (c : Char) (h : Spells q t) :
    Spells (Value.escape c ++ q) (c :: t) := by
  unfold Value.escape
  split
  case h_8 _ h1 h2 _ _ _ _ _ =>
    split
    case isTrue hc =>
      have hn : c.toNat < 32 := hc
      have hu := Spells.unit (unit_controlEscape c.toNat hn) (by omega) h
      rw [Char.ofNat_toNat] at hu
      exact hu
    case isFalse hc => exact .plain ⟨hc, h1, h2⟩ h
  all_goals exact .short rfl h

theorem spells_escape (t : List Char) : Spells (t.flatMap Value.escape ++ ['"']) t := by
  induction t with
  | nil => exact .close
  | cons c t ih =>
    rw [List.flatMap_cons, List.append_assoc]
    exact ih.escape c

end IngressCache.Json
