import IngressCache.Json.Scan

/-!
# Reading values of a known shape

A reader takes the characters ahead and gives a value and the characters after it. Records may
be written as objects with their fields in any order or as lists in the order of the fields;
unknown fields are skipped. Faults come in the order of the text.
-/

namespace IngressCache.Json

abbrev Reader (α : Type) := List Char → Except Fault (α × List Char)

/-- The fault that the value ahead is not of the expected type. -/
def mistyped {α : Type} (expected : String) (s : List Char) : Except Fault (α × List Char) :=
  let wrong (found : Found) : Except Fault (α × List Char) := .error (.wrongType found expected)
  match s with
  | [] => .error .endOfValue
  | c :: rest =>
    if c = 'n' then do let _ ← word "ull".toList rest; wrong .null
    else if c = 't' then do let _ ← word "rue".toList rest; wrong (.flag true)
    else if c = 'f' then do let _ ← word "alse".toList rest; wrong (.flag false)
    else if c = '"' then do let (t, _) ← text rest; wrong (.text t)
    else if c = '-' ∨ c.isDigit then do let (n, _) ← number s; wrong n
    else if c = '[' then wrong .list
    else if c = '\x7b' then wrong .object
    else .error .expectedValue

/-! ### Plain values -/

/-- A text, which the message calls `expected`. -/
def Reader.text (expected : String) : Reader String := fun s =>
  match skipBlanks s with
  | [] => .error .endOfValue
  | '"' :: rest => Json.text rest
  | s => mistyped expected s

def Reader.flag : Reader Bool := fun s =>
  match skipBlanks s with
  | [] => .error .endOfValue
  | 't' :: rest => (true, ·) <$> word "rue".toList rest
  | 'f' :: rest => (false, ·) <$> word "alse".toList rest
  | s => mistyped "a boolean" s

def Reader.natural64 : Reader UInt64 := fun s =>
  match skipBlanks s with
  | [] => .error .endOfValue
  | c :: rest =>
    if c = '-' ∨ c.isDigit then do
      match ← number (c :: rest) with
      | (.natural n, s) => .ok (UInt64.ofNat n, s)
      | (.negative n, _) => .error (.wrongValue (.negative n) "u64")
      | (found, _) => .error (.wrongType found "u64")
    else mistyped "u64" (c :: rest)

def Reader.null : Reader Unit := fun s =>
  match skipBlanks s with
  | [] => .error .endOfValue
  | 'n' :: rest => ((), ·) <$> word "ull".toList rest
  | s => mistyped "unit" s

def Reader.optional {α : Type} (r : Reader α) : Reader (Option α) := fun s =>
  match skipBlanks s with
  | 'n' :: rest => (none, ·) <$> word "ull".toList rest
  | s => (fun (a, s) => (some a, s)) <$> r s

def Reader.instant : Reader Instant := fun s => do
  let (t, s) ← Reader.text "an RFC 3339 formatted date and time string" s
  match Rfc3339.parse t with
  | .ok i => .ok (i, s)
  | .error f => .error (.badInstant f)

def Reader.map {α β : Type} (f : α → β) (r : Reader α) : Reader β := fun s =>
  (fun (a, s) => (f a, s)) <$> r s

/-! ### Variants -/

structure Variant (α : Type) where
  name : String
  /-- The value that the bare name stands for, unless the form needs a value. -/
  bare : Option α
  payload : Reader α

def Variant.plain {α : Type} (name : String) (a : α) : Variant α :=
  ⟨name, some a, Reader.null.map fun _ => a⟩

def Variant.ofText {α : Type} (name : String) (f : String → α) : Variant α :=
  ⟨name, none, (Reader.text "a string").map f⟩

def variantOf {α : Type} (known : List (Variant α)) (name : String) :
    Except Fault (Variant α) :=
  match known.find? fun v => v.name == name with
  | some v => .ok v
  | none => .error (.unknownVariant name (known.map Variant.name))

/-- A value in one of its forms: a bare name, or an object whose one field bears the name. -/
def Reader.variants {α : Type} (known : List (Variant α)) : Reader α := fun s =>
  match skipBlanks s with
  | [] => .error .endOfValue
  | '"' :: rest => do
    let (name, s) ← Json.text rest
    let v ← variantOf known name
    match v.bare with
    | some a => .ok (a, s)
    | none => .error (.wrongType .bareVariant "newtype variant")
  | '\x7b' :: rest => do
    let (name, s) ← Reader.text "variant identifier" rest
    let v ← variantOf known name
    let (a, s) ← v.payload (← colon s)
    match skipBlanks s with
    | [] => .error .endOfObject
    | '\x7d' :: s => .ok (a, s)
    | _ => .error .expectedValue
  | _ => .error .expectedValue

/-! ### Records -/

structure RecordField (δ : Type) where
  name : String
  /-- True if a list that ends before this field is too short. -/
  required : Bool
  isSet : δ → Bool
  read : δ → Reader δ

/-- A record type: its fields in order, the empty draft, and the record of a full draft. -/
structure Format (δ α : Type) where
  typeName : String
  fields : List (RecordField δ)
  empty : δ
  finish : δ → Except Fault α

namespace Format

variable {δ α : Type}

def expected (f : Format δ α) : String :=
  "struct " ++ f.typeName

def expectedLength (f : Format δ α) : String :=
  s!"struct {f.typeName} with {f.fields.length} element" ++
    if f.fields.length = 1 then "" else "s"

/-- The characters from a field's key on, after the comma that separates it. -/
def nextKey (first : Bool) (s : List Char) : Except Fault (List Char) :=
  match first, s with
  | true, s => .ok s
  | false, ',' :: rest =>
    match skipBlanks rest with
    | [] => .error .endOfValue
    | '\x7d' :: _ => .error .trailingComma
    | s => .ok s
  | false, _ => .error .expectedFieldEnd

/-- Fields of an object up to its end; `fuel` bounds their number. -/
def readFields (f : Format δ α) : (fuel : Nat) → (first : Bool) → δ → Reader δ
  | 0, _, _, _ => .error .endOfObject
  | fuel + 1, first, draft, s =>
    match skipBlanks s with
    | [] => .error .endOfObject
    | '\x7d' :: rest => .ok (draft, rest)
    | s => do
      match ← nextKey first s with
      | '"' :: rest => do
        let (key, s) ← Json.text rest
        match f.fields.find? fun field => field.name == key with
        | some field =>
          if field.isSet draft then .error (.duplicateField key)
          else do
            let (draft, s) ← field.read draft (← colon s)
            readFields f fuel false draft s
        | none => do
          let s ← skipValue (← colon s)
          readFields f fuel false draft s
      | _ => .error .keyIsNotText

def closeList (s : List Char) : Except Fault (List Char) :=
  match skipBlanks s with
  | [] => .error .endOfList
  | ']' :: rest => .ok rest
  | ',' :: rest =>
    match skipBlanks rest with
    | ']' :: _ => .error .trailingComma
    | _ => .error .trailingCharacters
  | _ => .error .trailingCharacters

/-- The characters from an item on, after the comma that separates it. -/
def nextItem (first : Bool) (s : List Char) : Except Fault (List Char) :=
  match first, s with
  | true, s => .ok s
  | false, ',' :: rest =>
    match skipBlanks rest with
    | [] => .error .endOfValue
    | ']' :: _ => .error .trailingComma
    | s => .ok s
  | false, _ => .error .expectedItemEnd

/-- Items of a list for the fields that are left, of which the first has number `index`. -/
def readItems (f : Format δ α) : (index : Nat) → List (RecordField δ) → δ → Reader δ
  | _, [], draft, s => (draft, ·) <$> closeList s
  | index, field :: more, draft, s =>
    match skipBlanks s with
    | [] => .error .endOfList
    | ']' :: rest =>
      match (field :: more).findIdx? RecordField.required with
      | some i => .error (.wrongLength (index + i) f.expectedLength)
      | none => .ok (draft, rest)
    | s => do
      let (draft, s) ← field.read draft (← nextItem (index == 0) s)
      readItems f (index + 1) more draft s

def read (f : Format δ α) : Reader α := fun s => do
  match skipBlanks s with
  | [] => .error .endOfValue
  | '[' :: rest => do
    let (draft, s) ← f.readItems 0 f.fields f.empty rest
    (·, s) <$> f.finish draft
  | '\x7b' :: rest => do
    let (draft, s) ← f.readFields (rest.length + 1) true f.empty rest
    (·, s) <$> f.finish draft
  | s => mistyped f.expected s

end Format

def required {α : Type} (name : String) : Option α → Except Fault α
  | some a => .ok a
  | none => .error (.missingField name)

def decode {α : Type} (r : Reader α) (s : String) : Except Fault α := do
  let (a, rest) ← r s.toList
  if skipBlanks rest = [] then .ok a else .error .trailingCharacters

end IngressCache.Json
