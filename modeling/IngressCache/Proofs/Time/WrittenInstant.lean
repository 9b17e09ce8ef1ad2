import IngressCache.Proofs.Decimal.Digits

/-!
# Written instants are read back

Every part of a written instant is digits with a mark behind them, so that reading finds the part
again, whatever follows the mark. The parts together are the instant.
-/

namespace IngressCache.Rfc3339

open Decimal

/-! ### Digits and marks -/

theorem isBlank_of_isDigit {c : Char} (h : c.isDigit = true) : Text.isBlank c = false := by
  rw [Char.isDigit_iff_toNat] at h
  simp [Text.isBlank, Text.blankRanges] at h ⊢
  omega

theorem trimStart_cons {c : Char} (h : Text.isBlank c = false) (s : List Char) :
    Text.trimStart (c :: s) = c :: s := by
  simp [Text.trimStart, h]

theorem digits_cons (width n : Nat) :
    ∃ c cs, digits width n = c :: cs ∧ c.isDigit = true := by
  obtain ⟨c, cs, h⟩ := List.exists_cons_of_ne_nil (digits_ne_nil width n)
  have hmem : c ∈ digits width n := by simp [h]
  exact ⟨c, cs, h, isDigit_of_mem_digits hmem⟩

theorem trimStart_digits (width n : Nat) (s : List Char) :
    Text.trimStart (digits width n ++ s) = digits width n ++ s := by
  obtain ⟨c, cs, h, hd⟩ := digits_cons width n
  rw [h, List.cons_append, trimStart_cons (isBlank_of_isDigit hd)]

theorem number_digits {width n : Nat} {limit : Option Nat} {s : List Char} (hs : Stops s)
    (hn : n < 9223372036854775808) (hl : ∀ k, limit = some k → (digits width n).length ≤ k) :
    number limit (digits width n ++ s) = .ok (n, s) := by
  obtain ⟨c, cs, hc, -⟩ := digits_cons width n
  have hrun : (digits width n ++ s).takeWhile Char.isDigit = digits width n :=
    takeWhile_append (fun _ => isDigit_of_mem_digits) hs
  have hv := value_digits width n
  rw [hc] at hrun hl hv ⊢
  rw [List.cons_append] at hrun ⊢
  cases limit with
  | none =>
    simp [number, hrun, hv, hn]
  | some k =>
    have hk : (c :: cs).take k = c :: cs := List.take_of_length_le (hl k rfl)
    simp [number, hrun, hk, hv, hn]

theorem mark_cons {c : Char} (h : Text.isBlank c = false) (s : List Char) :
    mark c (c :: s) = .ok s := by
  simp [mark, trimStart_cons h]

/-- A part of a date or of a time of day, which has two digits. -/
theorem field_digits {low high n : Nat} {s : List Char} (hs : Stops s) (hl : low ≤ n)
    (hh : n ≤ high) (hn : n < 100) : field low high (digits 2 n ++ s) = .ok (n, s) := by
  have hlen : (digits 2 n).length = 2 := length_digits (by decide) hn
  have hnum : number (some 2) (digits 2 n ++ s) = .ok (n, s) :=
    number_digits hs (by omega) (by simp [hlen])
  simp only [field, trimStart_digits, hnum, bind, Except.bind, if_pos (And.intro hl hh)]

/-! ### Years -/

theorem signedYear_digits {n : Nat} (hn : n ≤ 9999) {s : List Char} (hs : Stops s) :
    signedYear (digits 4 n ++ s) = .ok ((n : Int), s) := by
  have hlen : (digits 4 n).length = 4 := length_digits (by decide) (by omega)
  have hnum : number (some 4) (digits 4 n ++ s) = .ok (n, s) :=
    number_digits hs (by omega) (by simp [hlen])
  have hb : -2147483648 ≤ (n : Int) ∧ (n : Int) < 2147483648 := by omega
  obtain ⟨c, cs, hc, hd⟩ := digits_cons 4 n
  have hm : c ≠ '-' := by rintro rfl; cases hd
  have hp : c ≠ '+' := by rintro rfl; cases hd
  rw [signedYear, trimStart_digits]
  rw [hc, List.cons_append] at hnum ⊢
  simp [hm, hp, hnum, hb, bind, Except.bind]

theorem signedYear_minus {n : Nat} (hn : n ≤ 2147483648) {s : List Char} (hs : Stops s) :
    signedYear ('-' :: digits 4 n ++ s) = .ok (-(n : Int), s) := by
  have hnum : number none (digits 4 n ++ s) = .ok (n, s) := number_digits hs (by omega) (by simp)
  have hb : -2147483648 ≤ -(n : Int) ∧ -(n : Int) < 2147483648 := by omega
  rw [List.cons_append, signedYear, trimStart_cons (by decide)]
  simp only [hnum, bind, Except.bind, Functor.map, Except.map, if_pos hb]

theorem signedYear_plus {n : Nat} (hn : n < 2147483648) {s : List Char} (hs : Stops s) :
    signedYear ('+' :: digits 4 n ++ s) = .ok ((n : Int), s) := by
  have hnum : number none (digits 4 n ++ s) = .ok (n, s) := number_digits hs (by omega) (by simp)
  have hb : -2147483648 ≤ (n : Int) ∧ (n : Int) < 2147483648 := by omega
  rw [List.cons_append, signedYear, trimStart_cons (by decide)]
  simp only [hnum, bind, Except.bind, Functor.map, Except.map, if_pos hb]

theorem signedYear_year {y : Int} (h : -2147483648 ≤ y ∧ y < 2147483648) {s : List Char}
    (hs : Stops s) : signedYear (year y ++ s) = .ok (y, s) := by
  unfold year
  split
  case isTrue hy => rw [signedYear_digits (by omega) hs, Int.toNat_of_nonneg hy.1]
  case isFalse =>
    split
    case isTrue hy =>
      have hn : -(y.natAbs : Int) = y := by omega
      rw [signedYear_minus (by omega) hs, hn]
    case isFalse hy =>
      have hn : (y.natAbs : Int) = y := by omega
      rw [signedYear_plus (by omega) hs, hn]

/-! ### Fractions -/

theorem nanos_digits {width n : Nat} (hw : 0 < width ∧ width ≤ 9) (hn : n < 10 ^ width) {c : Char}
    (hc : c.isDigit = false) (s : List Char) :
    nanos ('.' :: digits width n ++ c :: s) = .ok (n * Nat.pow 10 (9 - width), c :: s) := by
  have hlen : (digits width n).length = width := length_digits hw.1 hn
  have hle : (10 : Nat) ^ width ≤ 10 ^ 9 := Nat.pow_le_pow_right (by decide) hw.2
  have hnum : number (some 9) (digits width n ++ c :: s) = .ok (n, c :: s) :=
    number_digits (.cons hc) (by omega) (by simp [hlen, hw.2])
  have hd : (digits width n ++ c :: s).length - (c :: s).length = width := by
    simp [hlen]
  simp [nanos, hnum, hlen, hc, bind, Except.bind]

theorem nanos_fraction {n : Nat} (h : n < 1000000000) {c : Char} (hc : c.isDigit = false)
    (hp : c ≠ '.') (s : List Char) : nanos (fraction n ++ c :: s) = .ok (n, c :: s) := by
  unfold fraction
  split
  · next hz => simp [nanos, hp, hz]
  split
  · next hm =>
    rw [nanos_digits (by decide) (by omega) hc]
    simp
    omega
  split
  · next hm =>
    rw [nanos_digits (by decide) (by omega) hc]
    simp
    omega
  · rw [nanos_digits (by decide) h hc]
    simp

/-! ### Instants -/

theorem stops_fraction (n : Nat) {s : List Char} (hs : Stops s) : Stops (fraction n ++ s) := by
  unfold fraction
  split
  · exact hs
  split
  · exact .cons rfl
  split <;> exact .cons rfl

theorem year_bounds (d : Date) : -2147483648 ≤ d.year ∧ d.year < 2147483648 := by
  have h := d.isDate
  simp only [isDate, Bool.and_eq_true, decide_eq_true_eq] at h
  have hf : firstYear ≤ d.year := h.1.1.1
  have hl : d.year ≤ lastYear := h.1.1.2
  unfold firstYear at hf
  unfold lastYear at hl
  omega

theorem day_pos (d : Date) : 1 ≤ d.day := by
  have h := d.isDate
  simp only [isDate, Bool.and_eq_true, decide_eq_true_eq] at h
  exact h.1.2

/-- What is written of an instant reads as the instant. -/
theorem parse_render (i : Instant) : parse (render i) = .ok i := by
  obtain ⟨d, t⟩ := i
  have hdash (s : List Char) : mark '-' ('-' :: s) = .ok s := mark_cons (by decide) s
  have hcolon (s : List Char) : mark ':' (':' :: s) = .ok s := mark_cons (by decide) s
  have hyear (s : List Char) := signedYear_year (year_bounds d) (.cons (c := '-') (s := s) rfl)
  have hmonth (s : List Char) := field_digits (.cons (c := '-') (s := s) rfl) d.month_pos
    d.month_le (Nat.lt_of_le_of_lt d.month_le (by decide))
  have hday (s : List Char) := field_digits (.cons (c := 'T') (s := s) rfl) (day_pos d) d.day_le
    (Nat.lt_of_le_of_lt d.day_le (by decide))
  have hhour (s : List Char) := field_digits (.cons (c := ':') (s := s) rfl)
    (Nat.zero_le t.hour) (Nat.le_of_lt_succ t.hour.isLt) (Nat.lt_trans t.hour.isLt (by decide))
  have hminute (s : List Char) := field_digits (.cons (c := ':') (s := s) rfl)
    (Nat.zero_le t.minute) (Nat.le_of_lt_succ t.minute.isLt)
    (Nat.lt_trans t.minute.isLt (by decide))
  have hsecond := field_digits (stops_fraction t.nano (.cons (c := 'Z') (s := []) rfl))
    (Nat.zero_le t.second) (Nat.le_of_lt_succ t.second.isLt)
    (Nat.lt_trans t.second.isLt (by decide))
  have hnano := nanos_fraction t.nano.isLt (c := 'Z') rfl (by decide) []
  have hz : Text.trimStart ['Z'] = ['Z'] := rfl
  rw [parse, render, String.toList_ofList]
  simp only [dateAndTime, List.append_assoc, List.cons_append, bind, Except.bind, hyear, hdash,
    hmonth, hday, hhour, hcolon, hminute, hsecond, hnano, hz, offset]
  simp [Text.trimStart_nil, Date.ofParts?_self, TimeOfDay.ofParts?_self, Instant.ofLocal?_zero]

end IngressCache.Rfc3339
