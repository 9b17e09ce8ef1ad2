import IngressCache.Proofs.Json.Readback

/-!
# Reading the fields of an object

One step of the reader takes one field that the record knows and the draft does not have yet. An
object whose fields all are of that kind is read to the draft that they build, field by field.
-/

namespace IngressCache.Json

/-- What stands in front of a field: a comma, unless it is the first. -/
def separator (first : Bool) : List Char :=
  if first then [] else [',']

namespace Format

variable {δ α : Type} (f : Format δ α)

/-! ### One step -/

theorem readFields_close {b : List Char} (hb : Blanks b) (fuel : Nat) (first : Bool) (d : δ)
    (rest : List Char) :
    f.readFields (fuel + 1) first d (b ++ '\x7d' :: rest) = .ok (d, rest) := by
  rw [readFields, hb.skip, skipBlanks_cons rfl]
  rfl

theorem nextKey_separator (first : Bool) (s : List Char) :
    nextKey first (separator first ++ '"' :: s) = .ok ('"' :: s) := by
  cases first with
  | true => rfl
  | false => simp [nextKey, separator, skipBlanks_cons, isBlank]

theorem colon_blanks {c : List Char} (hc : Blanks c) (s : List Char) :
    colon (c ++ ':' :: s) = .ok s := by
  rw [colon, hc.skip, skipBlanks_cons rfl]
  rfl

/-- A field with the key `q` in any spelling and the value `v`, with blanks before the key and
before the colon. -/
theorem readFields_field {d d' : δ} {field : RecordField δ} {name : String}
    {b c q v rest : List Char} (hb : Blanks b) (hc : Blanks c) (hq : Spells q name.toList)
    (hf : f.fields.find? (fun x => x.name == name) = some field) (hu : field.isSet d = false)
    (hv : (field.read d).Reads v d') (hr : Follows rest) (fuel : Nat) (first : Bool) :
    f.readFields (fuel + 1) first d
        (b ++ (separator first ++ '"' :: (q ++ (c ++ ':' :: (v ++ rest))))) =
      f.readFields fuel false d' rest := by
  have hk := nextKey_separator first (q ++ (c ++ ':' :: (v ++ rest)))
  have hs : ∃ x s, separator first ++ '"' :: (q ++ (c ++ ':' :: (v ++ rest))) = x :: s ∧
      x ≠ '\x7d' ∧ isBlank x = false := by
    cases first with
    | true => exact ⟨_, _, rfl, by decide, rfl⟩
    | false => exact ⟨_, _, rfl, by decide, rfl⟩
  obtain ⟨x, s, hs, hx, hxb⟩ := hs
  rw [hs] at hk ⊢
  rw [readFields, hb.skip, skipBlanks_cons hxb]
  simp [hx, hk, text_spells hq, hf, hu, colon_blanks hc, hv rest hr, bind, Except.bind]

/-! ### Drafts -/

/-- The draft of a record, as it is read. -/
def drafts : Format δ δ where
  typeName := f.typeName
  fields := f.fields
  empty := f.empty
  finish := .ok

theorem readFields_drafts (fuel : Nat) (first : Bool) (d : δ) (s : List Char) :
    f.drafts.readFields fuel first d s = f.readFields fuel first d s := by
  have hfields : f.drafts.fields = f.fields := rfl
  induction fuel generalizing first d s with
  | zero => rfl
  | succ fuel ih => simp only [readFields, ih, hfields]

theorem readItems_drafts (index : Nat) (fields : List (RecordField δ)) (d : δ)
    (s : List Char) : f.drafts.readItems index fields d s = f.readItems index fields d s := by
  have hlength : f.drafts.expectedLength = f.expectedLength := rfl
  induction fields generalizing index d s with
  | nil => rfl
  | cons field more ih => simp only [readItems, ih, hlength]

theorem finish_of_drafts {x : Except Fault (δ × List Char)} {rest : List Char} {d : δ}
    {a : α} (h : (do let (d, s) ← x; (·, s) <$> f.drafts.finish d) = .ok (d, rest))
    (ha : f.finish d = .ok a) : (do let (d, s) ← x; (·, s) <$> f.finish d) = .ok (a, rest) := by
  cases x with
  | error e => cases h
  | ok p =>
    cases h
    simp only [bind, Except.bind, ha]
    rfl

/-- A value of the wrong type never is read, whatever is wrong with it besides. -/
theorem mistyped_eq_error (β : Type) (expected : String) (s : List Char) :
    ∃ e, (mistyped expected s : Except Fault (β × List Char)) = .error e := by
  have hbind {γ : Type} (x : Except Fault γ) (g : γ → Except Fault (β × List Char))
      (hg : ∀ c, ∃ e, g c = .error e) : ∃ e, (x >>= g) = .error e := by
    cases x with
    | error e => exact ⟨e, rfl⟩
    | ok c => exact hg c
  unfold mistyped
  cases s with
  | nil => exact ⟨_, rfl⟩
  | cons c rest =>
    simp only
    repeat' split
    all_goals first
      | exact ⟨_, rfl⟩
      | exact hbind _ _ fun _ => ⟨_, rfl⟩

/-- A draft that is read becomes the record that it is finished to. -/
theorem read_of_drafts {s rest : List Char} {d : δ} {a : α}
    (h : f.drafts.read s = .ok (d, rest)) (ha : f.finish d = .ok a) : f.read s = .ok (a, rest) := by
  simp only [read, readFields_drafts, readItems_drafts] at h ⊢
  split at h
  · cases h
  · exact f.finish_of_drafts h ha
  · exact f.finish_of_drafts h ha
  · obtain ⟨e, he⟩ := mistyped_eq_error δ f.drafts.expected _
    rw [he] at h
    cases h

theorem decode_of_drafts {t : String} {d : δ} {a : α} (h : decode f.drafts.read t = .ok d)
    (ha : f.finish d = .ok a) : decode f.read t = .ok a := by
  unfold decode at h ⊢
  cases hr : f.drafts.read t.toList with
  | error e =>
    rw [hr] at h
    cases h
  | ok p =>
    obtain ⟨d', rest⟩ := p
    simp only [hr, bind, Except.bind] at h
    split at h
    case isTrue hs =>
      cases h
      simp only [f.read_of_drafts hr ha, bind, Except.bind, if_pos hs]
    case isFalse => cases h

/-! ### All fields -/

/-- Fields of an object, each read into the draft that the ones before it leave. -/
inductive Fills : δ → List (String × Value) → δ → Prop
  | done {d : δ} : Fills d [] d
  | field {d d' d'' : δ} {field : RecordField δ} {name : String} {v : Value}
      {more : List (String × Value)}
      (hf : f.fields.find? (fun x => x.name == name) = some field) (hu : field.isSet d = false)
      (hv : (field.read d).Reads v.render d') (h : Fills d' more d'') :
      Fills d ((name, v) :: more) d''

/-- The fields of an object with the comma in front of them, if there are any. -/
def separated (first : Bool) (fields : List (String × Value)) : List Char :=
  match fields with
  | [] => []
  | _ => separator first ++ Value.renderFields fields

theorem separated_cons (first : Bool) (name : String) (v : Value)
    (more : List (String × Value)) :
    separated first ((name, v) :: more) =
      separator first ++ (Value.renderText name ++ ':' :: (v.render ++ separated false more)) := by
  cases more with
  | nil => simp [separated, Value.renderFields]
  | cons w more => simp [separated, Value.renderFields, separator]

variable {f}

/-- A field whose reader is that of a value `x`, which then is put into the draft. -/
theorem Fills.map {β : Type} {r : Reader β} {set : δ → β → δ} {isSet : δ → Bool} {required : Bool}
    {x : β} {d d' : δ} {key name : String} {v : Value} {more : List (String × Value)}
    (hf : f.fields.find? (fun x => x.name == name) =
      some ⟨key, required, isSet, fun d => r.map (set d)⟩)
    (hu : isSet d = false) (hv : r.Reads v.render x) (h : f.Fills (set d x) more d') :
    f.Fills d ((name, v) :: more) d' :=
  .field hf hu (hv.map (set d)) h

theorem Fills.readFields {d d' : δ} {fields : List (String × Value)} (h : f.Fills d fields d')
    (first : Bool) (fuel : Nat) (hl : fields.length < fuel) (rest : List Char) :
    f.readFields fuel first d (separated first fields ++ '\x7d' :: rest) = .ok (d', rest) := by
  induction h generalizing first fuel with
  | done =>
    obtain ⟨fuel, rfl⟩ := Nat.exists_eq_add_one.mpr (Nat.zero_lt_of_lt hl)
    exact f.readFields_close Blanks.nil fuel first _ rest
  | @field d d' d'' field name v more hf hu hv h ih =>
    obtain ⟨fuel, rfl⟩ := Nat.exists_eq_add_one.mpr (Nat.zero_lt_of_lt hl)
    have hrest := ih false fuel (by simpa using hl)
    have hfollows : Follows (separated false more ++ '\x7d' :: rest) := by
      cases more with
      | nil => exact follows_mark (by simp) _
      | cons w more => exact follows_mark (by simp) _
    have hstep := f.readFields_field Blanks.nil Blanks.nil (spells_escape name.toList) hf hu hv
      hfollows fuel first
    rw [← hrest, ← hstep, separated_cons]
    simp [Value.renderText]

theorem separated_true (fields : List (String × Value)) :
    separated true fields = Value.renderFields fields := by
  cases fields with
  | nil => simp [separated, Value.renderFields]
  | cons w more => simp [separated, separator]

theorem length_le_separated (first : Bool) (fields : List (String × Value)) :
    fields.length ≤ (separated first fields).length := by
  induction fields generalizing first with
  | nil => simp
  | cons w more ih =>
    have hmore := ih false
    rw [separated_cons]
    simp only [List.length_append, List.length_cons]
    omega

theorem read_brace {b : List Char} (hb : Blanks b) {d : δ} {a : α} {s rest : List Char}
    (h : f.readFields (s.length + 1) true f.empty s = .ok (d, rest)) (ha : f.finish d = .ok a) :
    f.read (b ++ '\x7b' :: s) = .ok (a, rest) := by
  rw [read, hb.skip, skipBlanks_cons rfl]
  simp only [h, ha, bind, Except.bind]
  rfl

theorem Fills.reads {d : δ} {a : α} {fields : List (String × Value)}
    (h : f.Fills f.empty fields d) (ha : f.finish d = .ok a) :
    f.read.Reads (Value.object fields).render a := by
  intro rest _
  have hl : fields.length < (separated true fields ++ '\x7d' :: rest).length + 1 := by
    have := length_le_separated true fields
    rw [List.length_append]
    omega
  have hr := read_brace Blanks.nil (h.readFields true _ hl rest) ha
  rw [separated_true] at hr
  simpa [Value.render] using hr

end Format

end IngressCache.Json
