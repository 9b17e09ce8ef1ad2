import Mathlib.Algebra.Group.Nat.Defs
import Mathlib.Data.List.TakeWhile
import IngressCache.Time.Rfc3339
import IngressCache.Json.Scan

/-!
# Reading decimal digits back

The digits of a number in front of anything but a digit are the run that a scanner takes, and
their value is the number again, with or without zeros in front.
-/

namespace IngressCache.Decimal

/-- No digit is ahead, so that a run of digits ends here. -/
def Stops (s : List Char) : Prop :=
  ∀ c ∈ s.head?, c.isDigit = false

theorem Stops.nil : Stops [] := by simp [Stops]

theorem Stops.cons {c : Char} {s : List Char} (h : c.isDigit = false) : Stops (c :: s) := by
  simpa [Stops] using h

theorem takeWhile_append {ds s : List Char} (hd : ∀ c ∈ ds, c.isDigit = true) (hs : Stops s) :
    (ds ++ s).takeWhile Char.isDigit = ds := by
  rw [List.takeWhile_append_of_pos hd]
  cases s with
  | nil => simp
  | cons c s => simp [hs c rfl]

/-! ### Digits of a number -/

theorem isDigit_of_mem {n : Nat} {c : Char} (h : c ∈ Nat.toDigits 10 n) : c.isDigit = true :=
  Nat.isDigit_of_mem_toDigits (by decide) (by decide) h

/-- A number that is written in several digits does not begin with a zero. -/
theorem head?_toDigits_ne_zero (n : Nat) (h : 0 < n) : (Nat.toDigits 10 n).head? ≠ some '0' := by
  induction n using Nat.base_induction 10 (by decide) with
  | single m hm =>
    rw [Nat.toDigits_of_lt_base hm]
    simp only [List.head?_cons, ne_eq, Option.some.injEq, Nat.digitChar_eq_zero]
    omega
  | digit m k hk hm ih =>
    obtain ⟨c, cs, hc⟩ := List.exists_cons_of_ne_nil (Nat.toDigits_ne_nil (n := m) (b := 10))
    rw [← Nat.toDigits_append_toDigits (by decide) hm hk, hc, List.cons_append, List.head?_cons]
    simpa only [hc, List.head?_cons] using ih hm

theorem length_toDigits_of_head_zero {n : Nat} (h : (Nat.toDigits 10 n).head? = some '0') :
    (Nat.toDigits 10 n).length = 1 := by
  rcases Nat.eq_zero_or_pos n with rfl | hn
  · rfl
  · exact absurd h (head?_toDigits_ne_zero n hn)

/-! ### Values -/

theorem value_eq_ofDigitChars (ds : List Char) : Rfc3339.value ds = Nat.ofDigitChars 10 ds 0 :=
  rfl

theorem le_ofDigitChars (ds : List Char) (n : Nat) : n ≤ Nat.ofDigitChars 10 ds n := by
  have h : 0 < 10 ^ ds.length := Nat.pow_pos (by decide)
  rw [Nat.ofDigitChars_eq_ofDigitChars_zero]
  exact Nat.le_add_right_of_le (Nat.le_mul_of_pos_left n h)

/-- A bound above the number of all the digits lets every one of them in. -/
theorem absorb_eq_of_lt {bound : Nat} (ds : List Char) (n : Nat)
    (h : Nat.ofDigitChars 10 ds n < bound) :
    Json.absorb bound n ds = (Nat.ofDigitChars 10 ds n, []) := by
  induction ds generalizing n with
  | nil => rfl
  | cons c ds ih =>
    rw [Nat.ofDigitChars_cons] at h ⊢
    have hc : 10 * n + Json.digitValue c < bound := Nat.lt_of_le_of_lt (le_ofDigitChars ds _) h
    rw [Json.absorb, if_pos hc]
    exact ih _ h

theorem absorb_toDigits {bound n : Nat} (h : n < bound) :
    Json.absorb bound 0 (Nat.toDigits 10 n) = (n, []) := by
  have hv : Nat.ofDigitChars 10 (Nat.toDigits 10 n) 0 = n := Nat.ofDigitChars_ten_toDigits
  rw [absorb_eq_of_lt _ _ (by rwa [hv]), hv]

/-! ### Digits with zeros in front -/

theorem isDigit_of_mem_digits {width n : Nat} {c : Char} (h : c ∈ Rfc3339.digits width n) :
    c.isDigit = true := by
  rcases List.mem_append.mp h with hz | hd
  · rw [List.eq_of_mem_replicate hz]
    rfl
  · exact isDigit_of_mem hd

theorem value_digits (width n : Nat) : Rfc3339.value (Rfc3339.digits width n) = n := by
  rw [value_eq_ofDigitChars, Rfc3339.digits, Nat.ofDigitChars_append,
    Nat.ofDigitChars_replicate_zero, Nat.mul_zero, Nat.ofDigitChars_ten_toDigits]

theorem length_digits {width n : Nat} (hw : 0 < width) (h : n < 10 ^ width) :
    (Rfc3339.digits width n).length = width := by
  have hl : (Nat.toDigits 10 n).length ≤ width :=
    (Nat.length_toDigits_le_iff (by decide) hw).mpr h
  rw [Rfc3339.digits, List.length_append, List.length_replicate]
  omega

theorem digits_ne_nil (width n : Nat) : Rfc3339.digits width n ≠ [] := by
  simp [Rfc3339.digits, Nat.toDigits_ne_nil]

end IngressCache.Decimal
