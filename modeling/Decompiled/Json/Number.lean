import Decompiled.Json.Text

/-!
# Numbers of JSON text

A number is read twice over: its form by digits, and its value as far as it
fits. Digits are collected into a word of 64 bits. Those in front of the point
that do not fit are counted, those behind it dropped. A number with neither
point nor exponent that fits is a whole number; any other is a double, made
from the word by the powers of ten.

* `length_skipNumber_lt`: passing over a number uses up text.
-/

namespace Decompiled.Json

/-! ## The word of digits -/

/-- The greatest number that the digits are collected into. -/
def greatestWord : Nat := 0xFFFFFFFFFFFFFFFF

/-- The greatest power that an exponent can name. -/
def greatestPower : Nat := 0x7FFFFFFF

/-- Collect digits while they fit. Answers with the number, and with how many
digits were taken. -/
def collect (word : Nat) : List UInt8 → Nat × Nat
  | [] => (word, 0)
  | d :: digits =>
      if word * 10 + digitValue d ≤ greatestWord then
        let (result, taken) := collect (word * 10 + digitValue d) digits
        (result, taken + 1)
      else (word, 0)

/-- The digits in front of a text. -/
def digitsOf (text : List UInt8) : List UInt8 := text.takeWhile isDigit

/-- What follows the digits in front of a text. -/
def afterDigits (text : List UInt8) : List UInt8 := text.dropWhile isDigit

/-! ## Doubles from decimals -/

/-- The double nearest to a power of ten. -/
def powerOfTen (n : Nat) : Float := Float.ofScientific 1 false n

/-- A double divided by a power of ten, at most 308 powers at a time. -/
def scaleDown (value : Float) (power : Nat) : Float :=
  if power ≤ 308 then value / powerOfTen power
  else if value == 0 then value
  else scaleDown (value / powerOfTen 308) (power - 308)
termination_by power
decreasing_by omega

/-- A double multiplied by a power of ten, unless the result is beyond all
doubles. -/
def scaleUp? (value : Float) (power : Nat) : Option Float :=
  if power ≤ 308 then
    let result := value * powerOfTen power
    if result.isInf then none else some result
  else if value == 0 then some value
  else none

/-- The double `word * 10 ^ power`, unless it is beyond all doubles. -/
def scale? (word : Nat) (power : Int) : Option Float :=
  let value := (UInt64.ofNat word).toFloat
  if 0 ≤ power then scaleUp? value power.toNat else some (scaleDown value power.natAbs)

/-- A double with a sign in front of it. -/
def signed (negative : Bool) (value : Float) : Double :=
  ⟨(if negative then -value else value).toBits⟩

/-- What a number with a point or an exponent is found to be. -/
def foundFloat (negative : Bool) (word : Nat) (power : Int) (text : List UInt8) :
    Except Fault (Found × List UInt8) :=
  match scale? word power with
  | some value => .ok (.float (signed negative value), text)
  | none => .error (.here .numberOutOfRange text)

/-- What a number without them is found to be. Minus zero and what does not fit
are doubles. -/
def foundInteger (negative : Bool) (word : Nat) : Found :=
  if !negative then .integer word
  else if 0 < word && word ≤ 0x8000000000000000 then .integer (-(word : Int))
  else .float (signed true (UInt64.ofNat word).toFloat)

/-! ## Reading -/

/-- What follows the sign of an exponent, and whether it was a minus. -/
def readSign : List UInt8 → Bool × List UInt8
  | [] => (false, [])
  | b :: text =>
      if b = byte '+' then (false, text)
      else if b = byte '-' then (true, text)
      else (false, b :: text)

/-- Read further digits of an exponent. One that is beyond all powers ends the
number: it is too great, or so small that nothing is left of it. -/
def readPower (negative : Bool) (word : Nat) (start : Int) (minus : Bool) (power : Nat) :
    List UInt8 → Except Fault (Found × List UInt8)
  | [] => foundFloat negative word (if minus then start - power else start + power) []
  | b :: text =>
      if isDigit b then
        if power * 10 + digitValue b ≤ greatestPower then
          readPower negative word start minus (power * 10 + digitValue b) text
        else if word ≠ 0 && !minus then .error (.here .numberOutOfRange text)
        else .ok (.float (signed negative 0), afterDigits text)
      else
        foundFloat negative word (if minus then start - power else start + power) (b :: text)

/-- Read an exponent from behind its letter. -/
def readExponent (negative : Bool) (word : Nat) (start : Int) (text : List UInt8) :
    Except Fault (Found × List UInt8) :=
  match readSign text with
  | (_, []) => .error (.here .endInValue [])
  | (minus, b :: text) =>
      if isDigit b then readPower negative word start minus (digitValue b) text
      else .error (.here .invalidNumber text)

/-- Whether an exponent begins here. -/
def startsExponent (b : UInt8) : Bool := b == byte 'e' || b == byte 'E'

/-- Read an exponent if there is one. -/
def readOptionalExponent (negative : Bool) (word : Nat) (power : Int) :
    List UInt8 → Except Fault (Found × List UInt8)
  | [] => foundFloat negative word power []
  | b :: text =>
      if startsExponent b then readExponent negative word power text
      else foundFloat negative word power (b :: text)

/-- Read what follows the point of a number. -/
def readFraction (negative : Bool) (word : Nat) (power : Int) (text : List UInt8) :
    Except Fault (Found × List UInt8) :=
  let digits := digitsOf text
  if digits.isEmpty then
    .error (.beyond (if text.isEmpty then .endInValue else .invalidNumber) text)
  else
    let (word, taken) := collect word digits
    readOptionalExponent negative word (power - taken) (afterDigits text)

/-- Read what follows the digits in front of the point, all of which but
`dropped` are in the word. -/
def readTail (negative : Bool) (word dropped : Nat) :
    List UInt8 → Except Fault (Found × List UInt8)
  | [] =>
      if dropped = 0 then .ok (foundInteger negative word, [])
      else foundFloat negative word dropped []
  | b :: text =>
      if b = byte '.' then readFraction negative word dropped text
      else if startsExponent b then readExponent negative word dropped text
      else if dropped = 0 then .ok (foundInteger negative word, b :: text)
      else foundFloat negative word dropped (b :: text)

/-- Read a number from behind its sign. A first digit 0 stands alone. -/
def readUnsigned (negative : Bool) : List UInt8 → Except Fault (Found × List UInt8)
  | [] => .error (.here .endInValue [])
  | b :: text =>
      if !isDigit b then .error (.here .invalidNumber text)
      else if b = byte '0' then
        if (text.head?.any isDigit) then .error (.beyond .invalidNumber text)
        else readTail negative 0 0 text
      else
        let digits := b :: digitsOf text
        let (word, taken) := collect 0 digits
        readTail negative word (digits.length - taken) (afterDigits text)

/-- Read a number. -/
def readNumber : List UInt8 → Except Fault (Found × List UInt8)
  | [] => readUnsigned false []
  | b :: text =>
      if b = byte '-' then readUnsigned true text else readUnsigned false (b :: text)

/-! ## Passing over -/

/-- Pass over an exponent from behind its letter. -/
def skipExponent (text : List UInt8) : Except Fault (List UInt8) :=
  match (readSign text).2 with
  | [] => .error (.here .invalidNumber [])
  | b :: text =>
      if isDigit b then .ok (afterDigits text) else .error (.here .invalidNumber text)

/-- Pass over an exponent if there is one. -/
def skipOptionalExponent : List UInt8 → Except Fault (List UInt8)
  | [] => .ok []
  | b :: text => if startsExponent b then skipExponent text else .ok (b :: text)

/-- Pass over what follows the point of a number. -/
def skipFraction (text : List UInt8) : Except Fault (List UInt8) :=
  if (digitsOf text).isEmpty then .error (.beyond .invalidNumber text)
  else skipOptionalExponent (afterDigits text)

/-- Pass over what follows the digits in front of the point. -/
def skipTail : List UInt8 → Except Fault (List UInt8)
  | [] => .ok []
  | b :: text =>
      if b = byte '.' then skipFraction text else skipOptionalExponent (b :: text)

/-- Pass over a number from behind its sign. -/
def skipNumber : List UInt8 → Except Fault (List UInt8)
  | [] => .error (.here .invalidNumber [])
  | b :: text =>
      if !isDigit b then .error (.here .invalidNumber text)
      else if b = byte '0' then
        if (text.head?.any isDigit) then .error (.beyond .invalidNumber text)
        else skipTail text
      else skipTail (afterDigits text)

/-! ## Numbers that are passed over use up text -/

theorem length_afterDigits_le (text : List UInt8) :
    (afterDigits text).length ≤ text.length :=
  length_dropWhile_le isDigit text

theorem length_readSign_le (text : List UInt8) :
    (readSign text).2.length ≤ text.length := by
  unfold readSign
  split
  · simp
  · split
    · simp
    · split <;> simp

theorem length_skipOptionalExponent_le {text rest : List UInt8}
    (h : skipOptionalExponent text = .ok rest) : rest.length ≤ text.length := by
  unfold skipOptionalExponent at h
  split at h
  · simp only [Except.ok.injEq] at h
    simp [← h]
  · rename_i b text
    split at h
    · have hsign := length_readSign_le text
      unfold skipExponent at h
      split at h
      · simp at h
      · rename_i c t heq
        rw [heq] at hsign
        split at h
        · simp only [Except.ok.injEq] at h
          have := length_afterDigits_le t
          simp only [← h, List.length_cons] at hsign ⊢
          omega
        · simp at h
    · simp only [Except.ok.injEq] at h
      simp [← h]

theorem length_skipTail_le {text rest : List UInt8} (h : skipTail text = .ok rest) :
    rest.length ≤ text.length := by
  unfold skipTail at h
  split at h
  · simp only [Except.ok.injEq] at h
    simp [← h]
  · rename_i b text
    split at h
    · unfold skipFraction at h
      split at h
      · simp at h
      · have := length_skipOptionalExponent_le h
        have := length_afterDigits_le text
        simp only [List.length_cons]
        omega
    · exact length_skipOptionalExponent_le h

/-- Passing over a number uses up text. -/
theorem length_skipNumber_lt {text rest : List UInt8} (h : skipNumber text = .ok rest) :
    rest.length < text.length := by
  unfold skipNumber at h
  split at h
  · simp at h
  · rename_i b text
    simp only [List.length_cons]
    split at h
    · simp at h
    · split at h
      · split at h
        · simp at h
        · have := length_skipTail_le h
          omega
      · have := length_skipTail_le h
        have := length_afterDigits_le text
        omega

end Decompiled.Json
