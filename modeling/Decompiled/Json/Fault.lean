import Decompiled.Decimal.Shortest
import Decompiled.Json.Byte
import Decompiled.Text.Quoted

/-!
# What can be wrong with JSON text

A fault has a cause and a place. The place is known by how much of the text is
left there, so that a reader needs to carry nothing but the rest of the text.

* `Fault.here`, `Fault.beyond`: a fault before the next byte, and one that
  points just beyond it.
* `Fault.message`: the cause, with the line and the column of the place.
-/

namespace Decompiled.Json

/-- What was found where something else was expected. -/
inductive Found where
  | null
  | boolean (value : Bool)
  | integer (value : Int)
  | float (value : Double)
  | string (value : String)
  | sequence
  | map
  deriving DecidableEq

/-- Numbers are positional when their first digit has an exponent from -5 to
15. -/
def numberStyle : DecimalStyle := { leastPositional := -5, greatestPositional := 15 }

/-- The text of what was found. -/
def Found.text : Found → String
  | null => "null"
  | boolean value => "boolean `" ++ toString value ++ "`"
  | integer value => "integer `" ++ toString value ++ "`"
  | float value => "floating point `" ++ String.ofList (value.text numberStyle) ++ "`"
  | string value => "string " ++ Text.quote value
  | sequence => "sequence"
  | map => "map"

/-- Why a text was refused. -/
inductive Cause where
  | endInValue
  | endInList
  | endInObject
  | endInString
  | expectedColon
  | expectedListEnd
  | expectedObjectEnd
  | expectedWord
  | expectedValue
  | expectedKey
  | trailingComma
  | trailingCharacters
  | invalidNumber
  | numberOutOfRange
  | invalidEscape
  | loneSurrogate
  | endOfHexEscape
  | controlCharacter
  | invalidType (found : Found) (expected : String)
  | duplicateField (name : String)
  deriving DecidableEq

/-- The text of a cause. -/
def Cause.text : Cause → String
  | endInValue => "EOF while parsing a value"
  | endInList => "EOF while parsing a list"
  | endInObject => "EOF while parsing an object"
  | endInString => "EOF while parsing a string"
  | expectedColon => "expected `:`"
  | expectedListEnd => "expected `,` or `]`"
  | expectedObjectEnd => "expected `,` or `\x7d`"
  | expectedWord => "expected ident"
  | expectedValue => "expected value"
  | expectedKey => "key must be a string"
  | trailingComma => "trailing comma"
  | trailingCharacters => "trailing characters"
  | invalidNumber => "invalid number"
  | numberOutOfRange => "number out of range"
  | invalidEscape => "invalid escape"
  | loneSurrogate => "lone leading surrogate in hex escape"
  | endOfHexEscape => "unexpected end of hex escape"
  | controlCharacter =>
      "control character (\\u0000-\\u001F) found while parsing a string"
  | invalidType found expected =>
      "invalid type: " ++ found.text ++ ", expected " ++ expected
  | duplicateField name => "duplicate field `" ++ name ++ "`"

/-- The sorts of cause. -/
inductive Category where
  /-- The text ended too early. -/
  | cutShort
  /-- The text is JSON but not what was asked for. -/
  | mismatch
  /-- The text is not JSON. -/
  | malformed
  deriving DecidableEq

/-- The sort of a cause. -/
def Cause.category : Cause → Category
  | endInValue | endInList | endInObject | endInString => .cutShort
  | invalidType .. | duplicateField _ => .mismatch
  | _ => .malformed

/-- A cause and its place, known by the number of bytes left there. -/
structure Fault where
  cause : Cause
  left : Nat
  deriving DecidableEq

namespace Fault

/-- A fault before the first byte of what is left. -/
def here (cause : Cause) (text : List UInt8) : Fault := ⟨cause, text.length⟩

/-- A fault just beyond the first byte of what is left, or at the end. -/
def beyond (cause : Cause) (text : List UInt8) : Fault := ⟨cause, text.length - 1⟩

end Fault

/-! ## Places -/

/-- A place in a text. Lines are counted from 1, the bytes before it in its line
from 0. -/
structure Position where
  line : Nat
  column : Nat
  deriving DecidableEq

namespace Position

/-- The start of a text. -/
def start : Position := ⟨1, 0⟩

/-- The place after one more byte. -/
def next (position : Position) (b : UInt8) : Position :=
  if b = byte '\n' then ⟨position.line + 1, 0⟩
  else ⟨position.line, position.column + 1⟩

/-- The place after a stretch of text. -/
def after (text : List UInt8) : Position := text.foldl next start

end Position

namespace Fault

/-- The place of a fault in the whole text. -/
def position (fault : Fault) (text : List UInt8) : Position :=
  .after (text.take (text.length - fault.left))

/-- The text of a fault. -/
def message (fault : Fault) (text : List UInt8) : String :=
  fault.cause.text ++ " at line " ++ toString (fault.position text).line ++
    " column " ++ toString (fault.position text).column

end Fault

end Decompiled.Json
