import IngressCache.Json.Reader
import IngressCache.Proofs.Decimal.Digits
import IngressCache.Proofs.Json.Spelling

/-!
# Reading a value where it stands

A reader takes exactly the characters of a value, whatever comes after them. The readers of plain
values and of variants are taken one by one, so that records compose them.
-/

namespace IngressCache.Json

/-! ### What surrounds a value -/

/-- Nothing ahead that would go on with a number. -/
def Follows : List Char → Prop
  | [] => True
  | c :: _ => c.isDigit = false ∧ c ≠ '.' ∧ c ≠ 'e' ∧ c ≠ 'E'

theorem follows_mark {c : Char} (h : c = ',' ∨ c = ':' ∨ c = '\x7d') (s : List Char) :
    Follows (c :: s) := by
  rcases h with rfl | rfl | rfl <;> exact ⟨rfl, by decide, by decide, by decide⟩

theorem Follows.stops {s : List Char} (h : Follows s) : Decimal.Stops s := by
  cases s with
  | nil => exact .nil
  | cons c s => exact .cons h.1

def Blanks (b : List Char) : Prop :=
  ∀ c ∈ b, isBlank c = true

theorem Blanks.nil : Blanks [] := by simp [Blanks]

theorem Blanks.skip {b : List Char} (h : Blanks b) (s : List Char) :
    skipBlanks (b ++ s) = skipBlanks s :=
  List.dropWhile_append_of_pos h

theorem skipBlanks_cons {c : Char} (h : isBlank c = false) (s : List Char) :
    skipBlanks (c :: s) = c :: s := by
  simp [skipBlanks, h]

theorem Blanks.follows {b s : List Char} (h : Blanks b) (hs : Follows s) : Follows (b ++ s) := by
  cases b with
  | nil => exact hs
  | cons c b =>
    have hc : isBlank c = true := h c (by simp)
    simp only [isBlank, Bool.or_eq_true, beq_iff_eq] at hc
    rcases hc with ((rfl | rfl) | rfl) | rfl <;> exact ⟨rfl, by decide, by decide, by decide⟩

/-- The reader takes exactly the characters `s` and gives `a`. -/
def Reader.Reads {α : Type} (r : Reader α) (s : List Char) (a : α) : Prop :=
  ∀ rest, Follows rest → r (s ++ rest) = .ok (a, rest)

namespace Reader

variable {α β : Type} {r : Reader α} {s b q : List Char}

theorem Reads.map {a : α} (h : r.Reads s a) (f : α → β) : (r.map f).Reads s (f a) := by
  intro rest hr
  rw [Reader.map, h rest hr]
  rfl

/-! ### Texts and flags -/

theorem reads_text (expected : String) {t : String} (hb : Blanks b) (h : Spells q t.toList) :
    (Reader.text expected).Reads (b ++ '"' :: q) t := by
  intro rest _
  rw [List.append_assoc, List.cons_append, Reader.text, hb.skip, skipBlanks_cons rfl]
  simp [text_spells h]

theorem reads_optional_text (expected : String) {t : String} (hb : Blanks b)
    (h : Spells q t.toList) : (Reader.text expected).optional.Reads (b ++ '"' :: q) (some t) := by
  intro rest hr
  have ht := reads_text expected Blanks.nil h rest hr
  rw [List.append_assoc, List.cons_append, Reader.optional, hb.skip, skipBlanks_cons rfl]
  simp only [List.nil_append, List.cons_append] at ht
  simp [ht]

theorem reads_null : r.optional.Reads Value.null.render none := by
  intro rest _
  have h : Value.null.render ++ rest = 'n' :: ("ull".toList ++ rest) := by simp [Value.render]
  rw [h, Reader.optional, skipBlanks_cons rfl]
  simp only [word_append]
  rfl

theorem reads_flag (x : Bool) : Reader.flag.Reads (Value.flag x).render x := by
  intro rest _
  cases x with
  | true =>
    have h : (Value.flag true).render ++ rest = 't' :: ("rue".toList ++ rest) := by
      simp [Value.render]
    rw [h, Reader.flag, skipBlanks_cons rfl]
    simp only [word_append]
    rfl
  | false =>
    have h : (Value.flag false).render ++ rest = 'f' :: ("alse".toList ++ rest) := by
      simp [Value.render]
    rw [h, Reader.flag, skipBlanks_cons rfl]
    simp only [word_append]
    rfl

/-! ### Numbers -/

/-- The digits of a number begin with one that is neither a sign nor a blank. -/
theorem toDigits_cons (n : Nat) :
    ∃ c cs, Nat.toDigits 10 n = c :: cs ∧ c.isDigit = true ∧ c ≠ '-' ∧ isBlank c = false := by
  obtain ⟨c, cs, h⟩ := List.exists_cons_of_ne_nil (Nat.toDigits_ne_nil (n := n) (b := 10))
  have hd : c.isDigit = true := Decimal.isDigit_of_mem (n := n) (by simp [h])
  refine ⟨c, cs, h, hd, ?_, ?_⟩
  · rintro rfl
    cases hd
  · rw [Char.isDigit_iff_toNat] at hd
    simp only [isBlank, Bool.or_eq_false_iff, beq_eq_false_iff_ne, ne_eq]
    refine ⟨⟨⟨?_, ?_⟩, ?_⟩, ?_⟩ <;> (rintro rfl; simp at hd)

theorem digitRun_toDigits (n : Nat) {rest : List Char} (h : Decimal.Stops rest) :
    digitRun (Nat.toDigits 10 n ++ rest) = .ok (Nat.toDigits 10 n, rest) := by
  obtain ⟨c, cs, hc, -⟩ := toDigits_cons n
  rw [digitRun, Decimal.takeWhile_append (fun _ => Decimal.isDigit_of_mem) h, hc]
  simp

theorem spelling_toDigits (n : Nat) {rest : List Char} (h : Follows rest) :
    spelling (Nat.toDigits 10 n ++ rest) = .ok (⟨false, Nat.toDigits 10 n, none, none⟩, rest) := by
  have hrun := digitRun_toDigits n h.stops
  obtain ⟨c, cs, hc, -, hm, -⟩ := toDigits_cons n
  have hzero : c = '0' → cs = [] := by
    rintro rfl
    have hl := Decimal.length_toDigits_of_head_zero (n := n) (by rw [hc]; rfl)
    simpa [hc] using hl
  rw [hc, List.cons_append] at hrun ⊢
  cases rest with
  | nil =>
    rw [List.append_nil] at hrun ⊢
    simpa [spelling, hm, hrun, bind, Except.bind] using hzero
  | cons d ds =>
    obtain ⟨-, hdot, he, hE⟩ := h
    simpa [spelling, hm, hrun, hdot, he, hE, bind, Except.bind] using hzero

theorem found_toDigits {n : Nat} (h : n < Nat.pow 2 64) :
    Spelling.found ⟨false, Nat.toDigits 10 n, none, none⟩ = .ok (.natural n) := by
  simp [Spelling.found, Decimal.absorb_toDigits h]

theorem reads_natural64 (n : UInt64) : Reader.natural64.Reads (Value.natural n.toNat).render n := by
  intro rest hr
  obtain ⟨c, cs, hc, hd, -, hb⟩ := toDigits_cons n.toNat
  have hn : number (Nat.toDigits 10 n.toNat ++ rest) = .ok (.natural n.toNat, rest) := by
    simp only [number, spelling_toDigits _ hr, found_toDigits n.toNat_lt]
    rfl
  rw [Value.render, Reader.natural64, hc, List.cons_append, skipBlanks_cons hb]
  rw [hc, List.cons_append] at hn
  simp [hd, hn, bind, Except.bind]

/-! ### Instants and variants -/

theorem reads_instant {t : String} {i : Instant} (hb : Blanks b) (h : Spells q t.toList)
    (ht : Rfc3339.parse t = .ok i) : Reader.instant.Reads (b ++ '"' :: q) i := by
  intro rest hr
  simp only [Reader.instant, reads_text _ hb h rest hr, ht, bind, Except.bind]

theorem reads_bare {known : List (Variant α)} {name : String} {v : Variant α} {a : α}
    (hq : Spells q name.toList) (hf : variantOf known name = .ok v) (hv : v.bare = some a) :
    (Reader.variants known).Reads ('"' :: q) a := by
  intro rest _
  rw [List.cons_append, Reader.variants, skipBlanks_cons rfl]
  simp [text_spells hq, hf, hv, bind, Except.bind]

theorem reads_payload {known : List (Variant α)} {name : String} {v : Variant α} {a : α}
    (hq : Spells q name.toList) (hf : variantOf known name = .ok v) (hv : v.payload.Reads s a) :
    (Reader.variants known).Reads ('\x7b' :: '"' :: (q ++ ':' :: (s ++ ['\x7d']))) a := by
  intro rest _
  have hn := reads_text "variant identifier" Blanks.nil hq (':' :: (s ++ '\x7d' :: rest))
    (follows_mark (by simp) _)
  have hp := hv ('\x7d' :: rest) (follows_mark (by simp) _)
  simp only [List.nil_append, List.cons_append] at hn
  rw [List.cons_append, Reader.variants, skipBlanks_cons rfl]
  simp [hn, hf, hp, colon, skipBlanks_cons, isBlank, bind, Except.bind]

end Reader

/-! ### Whole texts -/

theorem decode_of_reads {α : Type} {r : Reader α} {s b : List Char} {a : α} (h : r.Reads s a)
    (hb : Blanks b) : decode r (String.ofList (s ++ b)) = .ok a := by
  have hs : skipBlanks b = [] := by simpa [skipBlanks] using hb.skip []
  have hf : Follows b := by simpa using hb.follows (s := []) trivial
  simp [decode, h b hf, hs, bind, Except.bind]

end IngressCache.Json
