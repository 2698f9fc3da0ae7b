/-!
# Escaping identifiers

A decompiler meets names that cannot be written in source code. Escaping makes
an identifier of any name: a letter, digit or underscore of ASCII stands for
itself, and every other character for its UTF-16 units, each an underscore and
four hexadecimal digits. An underscore in front keeps the result from starting
with a digit.

* `escape?_eq_none_iff`: exactly the valid names are left alone.
* `escapeChar_of_word`: a valid character stands for itself.
-/

namespace Decompiled.Identifier

/-- Whether a character may stand in an identifier. -/
def isWordChar (c : Char) : Bool := c.isAlphanum || c == '_'

/-- Whether a character may start an identifier. -/
def isStartChar (c : Char) : Bool := c.isAlpha || c == '_'

/-- Whether a name can be written as it is. The empty name can. -/
def isValid (name : String) : Bool :=
  name.toList.all isWordChar && name.toList.head?.all isStartChar

/-- The UTF-16 units of a character: itself, or two surrogates. -/
def units16 (c : Char) : List Nat :=
  let n := c.toNat
  if n < 0x10000 then [n]
  else [0xD800 + (n - 0x10000) / 0x400, 0xDC00 + (n - 0x10000) % 0x400]

/-- The upper-case hexadecimal digit of a number below 16. -/
def hexDigit (n : Nat) : Char :=
  if n < 10 then Char.ofNat ('0'.toNat + n) else Char.ofNat ('A'.toNat + (n - 10))

/-- The underscore and four hexadecimal digits that stand for a unit. -/
def escapeUnit (unit : Nat) : List Char :=
  ['_', hexDigit (unit / 0x1000 % 16), hexDigit (unit / 0x100 % 16),
    hexDigit (unit / 0x10 % 16), hexDigit (unit % 16)]

/-- What stands for a character in an escaped name. -/
def escapeChar (c : Char) : List Char :=
  if isWordChar c then [c] else (units16 c).flatMap escapeUnit

/-- What stands for the characters of a name, one after the other. -/
def escapeChars (name : List Char) : List Char := name.flatMap escapeChar

/-- An underscore in front of characters that could not start an identifier. -/
def guardStart (name : List Char) : List Char :=
  match name with
  | [] => []
  | c :: _ => if isStartChar c then name else '_' :: name

/-- The escaped name, or nothing when the name is valid as it is. -/
def escape? (name : String) : Option String :=
  if isValid name then none
  else some (String.ofList (guardStart (escapeChars name.toList)))

/-- A valid identifier for any name. -/
def escape (name : String) : String := (escape? name).getD name

/-- Exactly the valid names are left alone. -/
theorem escape?_eq_none_iff {name : String} : escape? name = none ↔ isValid name := by
  unfold escape?
  split <;> simp_all

/-- A valid character stands for itself. -/
theorem escapeChar_of_word {c : Char} (h : isWordChar c = true) : escapeChar c = [c] := by
  simp [escapeChar, h]

end Decompiled.Identifier
