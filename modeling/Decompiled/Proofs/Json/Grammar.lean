import Decompiled.Proofs.Identifier.Units

/-!
# The grammar of JSON

A syntax tree of JSON keeps all of a text: the blanks, how a character of a string is
escaped, the digits of a number. So each well-formed text is the spelling of a tree,
and what is ill-formed cannot be built.

* `Grammar.Value`, `Grammar.Element`, `Grammar.Member`: values, values between blanks,
  and these behind a key.
* `Grammar.said?`: what a string says, if its surrogates come in pairs.
* `Grammar.Document`: an object as a whole text.
-/

namespace Decompiled.Json.Grammar

/-! ## Blanks -/

/-- What may stand between the parts of a text. -/
inductive Blank where
  | space
  | newline
  | tab
  | carriageReturn
  deriving DecidableEq

/-- The character that a blank is written with. -/
def Blank.char : Blank → Char
  | space => ' '
  | newline => '\n'
  | tab => '\t'
  | carriageReturn => '\r'

/-- The characters of blanks. -/
def blanks (gap : List Blank) : List Char := gap.map Blank.char

/-! ## Strings -/

/-- A character that stands for itself in a string. -/
structure PlainChar where
  char : Char
  plain : 0x20 ≤ char.toNat ∧ char ≠ '"' ∧ char ≠ '\\'

/-- The characters that have an escape of one letter. -/
inductive Escape where
  | quote
  | backslash
  | slash
  | backspace
  | formFeed
  | newline
  | carriageReturn
  | tab
  deriving DecidableEq

namespace Escape

/-- What follows the backslash. -/
def letter : Escape → Char
  | quote => '"'
  | backslash => '\\'
  | slash => '/'
  | backspace => 'b'
  | formFeed => 'f'
  | newline => 'n'
  | carriageReturn => 'r'
  | tab => 't'

/-- What is meant. -/
def char : Escape → Char
  | quote => '"'
  | backslash => '\\'
  | slash => '/'
  | backspace => '\x08'
  | formFeed => '\x0C'
  | newline => '\n'
  | carriageReturn => '\r'
  | tab => '\t'

end Escape

/-- A hexadecimal digit, of either case if it is a letter. -/
structure HexDigit where
  value : Fin 16
  upper : Bool
  deriving DecidableEq

/-- The digits above 9 are letters. -/
def HexDigit.char (digit : HexDigit) : Char :=
  if digit.value < 10 then Char.ofNat ('0'.toNat + digit.value)
  else Char.ofNat ((if digit.upper then 'A' else 'a').toNat + (digit.value - 10))

/-- The number that four hexadecimal digits write. -/
def unitOf (a b c d : HexDigit) : Nat :=
  ((a.value * 16 + b.value) * 16 + c.value) * 16 + d.value

/-- A part of a string: a character, or an escape of one, or of a half of one. -/
inductive Piece where
  | plain (c : PlainChar)
  | escape (e : Escape)
  | unicode (a b c d : HexDigit)

namespace Piece

/-- A part of a string as it is written, with the backslash of an escape. -/
def chars : Piece → List Char
  | plain c => [c.char]
  | escape e => ['\\', e.letter]
  | unicode a b c d => ['\\', 'u', a.char, b.char, c.char, d.char]

/-- The UTF-16 units that are meant. -/
def units : Piece → List Nat
  | plain c => Identifier.units16 c.char
  | escape e => Identifier.units16 e.char
  | unicode a b c d => [unitOf a b c d]

end Piece

/-- A string with its quotes. -/
def quoted (pieces : List Piece) : List Char := '"' :: pieces.flatMap Piece.chars ++ ['"']

/-- What a string says. One with an unpaired surrogate says nothing. -/
def said? (pieces : List Piece) : Option String :=
  (Identifier.ofUnits16 (pieces.flatMap Piece.units)).map String.ofList

/-! ## Numbers -/

/-- The decimal digit of a number. -/
def digitChar (digit : Fin 10) : Char := Char.ofNat ('0'.toNat + digit)

/-- The digits in front of the point: a zero, or any that do not begin with one. -/
inductive Whole where
  | zero
  | positive (first : Fin 9) (rest : List (Fin 10))

/-- They stand without a zero in front, unless that is all there is. -/
def Whole.chars : Whole → List Char
  | zero => ['0']
  | positive first rest => digitChar first.succ :: rest.map digitChar

/-- One or more digits. -/
structure Digits where
  first : Fin 10
  rest : List (Fin 10)

/-- Digits as they are written, zeros in front included. -/
def Digits.chars (digits : Digits) : List Char :=
  digitChar digits.first :: digits.rest.map digitChar

/-- What may stand in front of the digits of an exponent. -/
inductive Sign where
  | plus
  | minus

/-- A sign is one character. -/
def Sign.char : Sign → Char
  | plus => '+'
  | minus => '-'

/-- The power of ten behind a number, with its letter in either case. -/
structure Exponent where
  upper : Bool
  sign? : Option Sign
  digits : Digits

/-- The letter, the sign if there is one, and the digits. -/
def Exponent.chars (exponent : Exponent) : List Char :=
  (if exponent.upper then 'E' else 'e') ::
    (exponent.sign?.toList.map Sign.char ++ exponent.digits.chars)

/-- A number: a minus or none, the digits in front of the point, and what may
follow them. -/
structure Numeral where
  negative : Bool
  whole : Whole
  fraction? : Option Digits
  exponent? : Option Exponent

namespace Numeral

/-- The point and what follows it. -/
def tail (numeral : Numeral) : List Char :=
  (numeral.fraction?.elim [] fun digits => '.' :: digits.chars) ++
    numeral.exponent?.elim [] Exponent.chars

/-- The number as it is written. -/
def chars (numeral : Numeral) : List Char :=
  (if numeral.negative then ['-'] else []) ++ numeral.whole.chars ++ numeral.tail

end Numeral

/-! ## Values -/

mutual

/-- A value without the blanks around it. -/
inductive Value where
  | null
  | boolean (value : Bool)
  | number (numeral : Numeral)
  | string (pieces : List Piece)
  /-- The blanks are those of a list without elements, or more in front of the first. -/
  | list (gap : List Blank) (elements : List Element)
  | object (gap : List Blank) (members : List Member)

/-- A value with the blanks around it. -/
inductive Element where
  | mk (before : List Blank) (value : Value) (after : List Blank)

/-- A key with the blanks around it, and behind a colon an element. -/
inductive Member where
  | mk (before : List Blank) (key : List Piece) (after : List Blank) (element : Element)

end

/-- Parts with commas between them. -/
def separated : List (List Char) → List Char
  | [] => []
  | first :: rest => first ++ rest.flatMap (',' :: ·)

mutual

/-- A value as it is written, down to the blanks inside it. -/
def Value.chars : Value → List Char
  | .null => "null".toList
  | .boolean true => "true".toList
  | .boolean false => "false".toList
  | .number numeral => numeral.chars
  | .string pieces => quoted pieces
  | .list gap elements => '[' :: (blanks gap ++ separated (spellElements elements) ++ [']'])
  | .object gap members => '\x7b' :: (blanks gap ++ separated (spellMembers members) ++ ['\x7d'])

/-- An element with its blanks. -/
def Element.chars : Element → List Char
  | .mk before value after => blanks before ++ value.chars ++ blanks after

/-- The key with its quotes and blanks, a colon, and the element. -/
def Member.chars : Member → List Char
  | .mk before key after element =>
      blanks before ++ quoted key ++ blanks after ++ ':' :: element.chars

/-- The elements of a list, each as it is written. -/
def spellElements : List Element → List (List Char)
  | [] => []
  | element :: rest => element.chars :: spellElements rest

/-- The members of an object, each as it is written. -/
def spellMembers : List Member → List (List Char)
  | [] => []
  | member :: rest => member.chars :: spellMembers rest

end

/-- The value between the blanks. -/
def Element.value : Element → Value
  | .mk _ value _ => value

namespace Member

/-- What the key of a member says. -/
def key? : Member → Option String
  | .mk _ key _ _ => said? key

/-- The value behind the key. -/
def value : Member → Value
  | .mk _ _ _ element => element.value

end Member

/-! ## Texts -/

/-- An object with the blanks around it. -/
structure Document where
  before : List Blank
  gap : List Blank
  members : List Member
  after : List Blank

namespace Document

/-- The document as it is written. -/
def text (document : Document) : String :=
  String.ofList (Element.mk document.before (.object document.gap document.members)
    document.after).chars

end Document

end Decompiled.Json.Grammar
