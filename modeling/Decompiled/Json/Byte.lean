/-!
# Bytes of JSON text

JSON text is read as bytes. All that has a meaning in it is ASCII; other bytes
occur in strings only.

* `length_skipSpace_le`: skipping leaves no more than there was.
-/

namespace Decompiled.Json

/-- The byte of an ASCII character. -/
def byte (c : Char) : UInt8 := c.toUInt8

/-- Whether a byte may stand between the parts of JSON text. -/
def isSpace (b : UInt8) : Bool :=
  b == byte ' ' || b == byte '\n' || b == byte '\t' || b == byte '\r'

/-- Whether a byte is a decimal digit. -/
def isDigit (b : UInt8) : Bool := byte '0' ≤ b && b ≤ byte '9'

/-- The value of a decimal digit. -/
def digitValue (b : UInt8) : Nat := b.toNat - 48

/-- The value of a hexadecimal digit of either case. -/
def hexValue? (b : UInt8) : Option Nat :=
  if isDigit b then some (digitValue b)
  else if byte 'a' ≤ b && b ≤ byte 'f' then some (b.toNat - 97 + 10)
  else if byte 'A' ≤ b && b ≤ byte 'F' then some (b.toNat - 65 + 10)
  else none

/-- What is left after the space in front. -/
def skipSpace (text : List UInt8) : List UInt8 := text.dropWhile isSpace

/-- The bytes of a text. -/
def bytesOf (text : String) : List UInt8 := text.toUTF8.toList

theorem length_dropWhile_le (test : UInt8 → Bool) (text : List UInt8) :
    (text.dropWhile test).length ≤ text.length :=
  (List.dropWhile_suffix test).length_le

/-- Skipping leaves no more than there was. -/
theorem length_skipSpace_le (text : List UInt8) : (skipSpace text).length ≤ text.length :=
  length_dropWhile_le isSpace text

end Decompiled.Json
