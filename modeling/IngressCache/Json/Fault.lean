import IngressCache.Text.Quoted
import IngressCache.Time.Rfc3339

/-!
# Faults of a JSON text

Why a text is not a JSON document, or not one of the expected shape, and the wording of it. The
causes fall into three categories: the grammar is broken, the data do not fit, or the text ends
early.
-/

namespace IngressCache.Json

inductive Found
  | null
  | flag (b : Bool)
  | natural (n : Nat)
  | negative (n : Nat)
  | real (text : String)
  | text (s : String)
  | list
  | object
  | bareVariant
  deriving DecidableEq, Repr

def Found.name : Found → String
  | .null => "null"
  | .flag b => s!"boolean `{b}`"
  | .natural n => s!"integer `{n}`"
  | .negative n => s!"integer `-{n}`"
  | .real x => s!"floating point `{x}`"
  | .text s => "string " ++ Text.quoted s
  | .list => "sequence"
  | .object => "map"
  | .bareVariant => "unit variant"

inductive Fault
  | endOfValue
  | endOfList
  | endOfObject
  | endOfText
  | expectedValue
  | expectedWord
  | expectedColon
  | expectedItemEnd
  | expectedFieldEnd
  | invalidNumber
  | numberOutOfRange
  | invalidEscape
  | loneSurrogate
  | unfinishedSurrogate
  | controlCharacter
  | keyIsNotText
  | trailingComma
  | trailingCharacters
  | wrongType (found : Found) (expected : String)
  | wrongValue (found : Found) (expected : String)
  | unknownVariant (name : String) (known : List String)
  | missingField (name : String)
  | duplicateField (name : String)
  | wrongLength (length : Nat) (expected : String)
  | badInstant (fault : Rfc3339.Fault)
  deriving DecidableEq, Repr

inductive Category
  | malformed
  | mistyped
  | truncated
  deriving DecidableEq, Repr

namespace Fault

def category : Fault → Category
  | endOfValue | endOfList | endOfObject | endOfText => .truncated
  | wrongType _ _ | wrongValue _ _ | unknownVariant _ _ | missingField _ | duplicateField _
  | wrongLength _ _ | badInstant _ => .mistyped
  | _ => .malformed

def ticked (name : String) : String :=
  "`" ++ name ++ "`"

def message : Fault → String
  | endOfValue => "EOF while parsing a value"
  | endOfList => "EOF while parsing a list"
  | endOfObject => "EOF while parsing an object"
  | endOfText => "EOF while parsing a string"
  | expectedValue => "expected value"
  | expectedWord => "expected ident"
  | expectedColon => "expected `:`"
  | expectedItemEnd => "expected `,` or `]`"
  | expectedFieldEnd => "expected `,` or `\x7d`"
  | invalidNumber => "invalid number"
  | numberOutOfRange => "number out of range"
  | invalidEscape => "invalid escape"
  | loneSurrogate => "lone leading surrogate in hex escape"
  | unfinishedSurrogate => "unexpected end of hex escape"
  | controlCharacter => "control character (\\u0000-\\u001F) found while parsing a string"
  | keyIsNotText => "key must be a string"
  | trailingComma => "trailing comma"
  | trailingCharacters => "trailing characters"
  | wrongType found expected => "invalid type: " ++ found.name ++ ", expected " ++ expected
  | wrongValue found expected => "invalid value: " ++ found.name ++ ", expected " ++ expected
  | unknownVariant name known =>
    "unknown variant " ++ ticked name ++ ", expected one of " ++
      ", ".intercalate (known.map ticked)
  | missingField name => "missing field " ++ ticked name
  | duplicateField name => "duplicate field " ++ ticked name
  | wrongLength n expected => s!"invalid length {n}, expected {expected}"
  | badInstant fault => fault.message

end Fault

end IngressCache.Json
