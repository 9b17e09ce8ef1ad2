import IngressCache.Text.Quoted

/-!
# JSON values

The values that are written, with the fields of an object in the order of their record, and
their compact text.
-/

namespace IngressCache.Json

inductive Value
  | null
  | flag (b : Bool)
  | natural (n : Nat)
  | text (s : String)
  | list (items : List Value)
  | object (fields : List (String × Value))

namespace Value

def ofOption {α : Type} (f : α → Value) : Option α → Value
  | some a => f a
  | none => null

/-! ### Text -/

def controlEscape (c : Char) : List Char :=
  '\\' :: 'u' :: (List.replicate (4 - (Text.hexDigits c.toNat).length) '0' ++
    Text.hexDigits c.toNat)

def escape (c : Char) : List Char :=
  match c with
  | '"' => ['\\', '"']
  | '\\' => ['\\', '\\']
  | '\x08' => ['\\', 'b']
  | '\x0c' => ['\\', 'f']
  | '\n' => ['\\', 'n']
  | '\r' => ['\\', 'r']
  | '\t' => ['\\', 't']
  | c => if c < ' ' then controlEscape c else [c]

def renderText (s : String) : List Char :=
  '"' :: s.toList.flatMap escape ++ ['"']

mutual

def render : Value → List Char
  | null => "null".toList
  | flag true => "true".toList
  | flag false => "false".toList
  | natural n => Nat.toDigits 10 n
  | text s => renderText s
  | list items => '[' :: renderItems items ++ [']']
  | object fields => '\x7b' :: renderFields fields ++ ['\x7d']

def renderItems : List Value → List Char
  | [] => []
  | [v] => render v
  | v :: rest => render v ++ ',' :: renderItems rest

def renderFields : List (String × Value) → List Char
  | [] => []
  | [(name, v)] => renderText name ++ ':' :: render v
  | (name, v) :: rest => renderText name ++ ':' :: render v ++ ',' :: renderFields rest

end

def toText (v : Value) : String :=
  String.ofList v.render

end Value

end IngressCache.Json
