import IngressCache.Text.Hidden

/-!
# Quoted text

The form in which a message shows a text of unknown content: between quotation marks, with the
marks and backslashes escaped, the common controls by letter and every other character without
a visible form by its number.
-/

namespace IngressCache.Text

/-! ### One character -/

/-- The lower-case hexadecimal digits of a number, without leading zeros. -/
def hexDigits (n : Nat) : List Char :=
  Nat.toDigits 16 n

/-- A character by its number: a backslash, the letter u and the number in braces. -/
def byNumber (c : Char) : List Char :=
  '\\' :: 'u' :: '\x7b' :: hexDigits c.toNat ++ ['\x7d']

def escape (c : Char) : List Char :=
  match c with
  | '\x00' => ['\\', '0']
  | '\t' => ['\\', 't']
  | '\n' => ['\\', 'n']
  | '\r' => ['\\', 'r']
  | '"' => ['\\', '"']
  | '\\' => ['\\', '\\']
  | c => if isHidden c then byNumber c else [c]

/-! ### A text -/

def quoted (s : String) : String :=
  String.ofList ('"' :: s.toList.flatMap escape ++ ['"'])

end IngressCache.Text
