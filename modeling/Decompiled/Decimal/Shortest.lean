import Decompiled.Decimal.Double

/-!
# The shortest decimal of a double

Every double is the nearest one to all the reals of an interval around it. The
shortest decimal is one of the fewest digits in that interval, and of those the
nearest to the double; halfway between two it is the one with an even last
digit.

* `Double.decode`: a positive finite double as `mantissa * 2 ^ exponent`.
* `Double.shortest`: its shortest decimal, found with whole numbers only.
* `Decimal.text`: a decimal in positional or exponential notation.
-/

namespace Decompiled

/-- The number `digits * 10 ^ exponent`. -/
structure Decimal where
  digits : Nat
  exponent : Int
  deriving DecidableEq

/-- A fraction of whole numbers with the ends of an interval around it, all over
one denominator. -/
structure RoundingInterval where
  low : Nat
  value : Nat
  high : Nat
  denominator : Nat
  /-- Whether the ends belong to the interval. -/
  closed : Bool

namespace RoundingInterval

/-- Whether `n / unit` lies in the interval, where `unit` is what one stands for
on a decimal grid. -/
def contains (interval : RoundingInterval) (n : Nat) : Bool :=
  if interval.closed then interval.low ≤ n && n ≤ interval.high
  else interval.low < n && n < interval.high

/-- The interval with every number multiplied by `10 ^ -exponent`. -/
def scale (interval : RoundingInterval) (exponent : Int) : RoundingInterval :=
  let up := Nat.pow 10 (-exponent).toNat
  { interval with
    low := interval.low * up
    value := interval.value * up
    high := interval.high * up
    denominator := interval.denominator * Nat.pow 10 exponent.toNat }

/-- The whole number nearest to the value among the two around it that lie in
the interval. Halfway between two that do, it is the even one. -/
def nearest? (interval : RoundingInterval) : Option Nat :=
  let below := interval.value / interval.denominator
  let above := below + 1
  let isIn n := interval.contains (n * interval.denominator)
  let twice := 2 * interval.value
  let middle := (below + above) * interval.denominator
  let prefersBelow := twice < middle || (twice == middle && below % 2 == 0)
  if isIn below && (prefersBelow || !isIn above) then some below
  else if isIn above then some above
  else none

/-- How many decimal digits a number has before the point, at least one. -/
def digitCount (n : Nat) : Nat := (Nat.toDigits 10 n).length

/-- The exponent of the first digit of the value. -/
def leadingExponent (interval : RoundingInterval) : Int :=
  if interval.denominator ≤ interval.value then
    (digitCount (interval.value / interval.denominator) : Int) - 1
  else
    -(digitCount ((interval.denominator - 1) / interval.value) : Int)

/-- Try decimals whose last digit has the exponent `exponent`, then ones a digit
longer, up to `more` times. -/
def search (interval : RoundingInterval) (exponent : Int) : Nat → Decimal
  | 0 => ⟨0, 0⟩
  | more + 1 =>
      match (interval.scale exponent).nearest? with
      | some digits => ⟨digits, exponent⟩
      | none => search interval (exponent - 1) more

end RoundingInterval

namespace Double

/-- Mantissa and binary exponent of a finite double without its sign. -/
def decode (d : Double) : Nat × Int :=
  if d.biasedExponent = 0 then (d.fraction, -1074)
  else (0x10000000000000 + d.fraction, (d.biasedExponent : Int) - 1075)

/-- The reals that round to a finite double other than zero. Below a power of
two they reach half as far, and the ends belong to even mantissas. -/
def interval (d : Double) : RoundingInterval :=
  let mantissa := d.decode.1
  let exponent := d.decode.2 - 2
  let unit := Nat.pow 2 exponent.toNat
  let reach := if d.fraction = 0 && d.biasedExponent > 1 then 1 else 2
  { low := (4 * mantissa - reach) * unit
    value := 4 * mantissa * unit
    high := (4 * mantissa + 2) * unit
    denominator := Nat.pow 2 (-exponent).toNat
    closed := mantissa % 2 == 0 }

/-- The shortest decimal of a finite double other than zero, without its sign.
Seventeen digits always suffice. -/
def shortest (d : Double) : Decimal :=
  d.interval.search d.interval.leadingExponent 17

end Double

/-! ## Notation -/

/-- How decimals are written. -/
structure DecimalStyle where
  /-- The least exponent of a first digit that is written positionally. -/
  leastPositional : Int
  /-- The greatest such exponent. -/
  greatestPositional : Int

namespace Decimal

/-- Digits without the zeros at their end. -/
def trimZeros (digits : List Char) : List Char :=
  (digits.reverse.dropWhile (· == '0')).reverse

/-- A list of digits with a point after the first `places` of them, filled up
with zeros on either side. There is a digit on both sides of the point. -/
def positional (digits : List Char) (places : Int) : List Char :=
  let front := List.replicate (-places).toNat '0'
  let whole := digits.take places.toNat ++
    List.replicate (places.toNat - digits.length) '0'
  let rest := front ++ digits.drop places.toNat
  (if whole.isEmpty then ['0'] else whole) ++ '.' ::
    (if rest.isEmpty then ['0'] else rest)

/-- Digits with a point after the first one, and the exponent of that one, with
its sign and no more digits than it needs. -/
def exponential (digits : List Char) (exponent : Int) : List Char :=
  let mantissa :=
    match digits with
    | [] => []
    | [digit] => [digit]
    | digit :: rest => digit :: '.' :: rest
  mantissa ++ ['e', if exponent < 0 then '-' else '+'] ++
    Nat.toDigits 10 exponent.natAbs

/-- A positive decimal in the notation that its first digit asks for. -/
def text (style : DecimalStyle) (decimal : Decimal) : List Char :=
  let all := Nat.toDigits 10 decimal.digits
  let exponent := decimal.exponent + all.length - 1
  let digits := trimZeros all
  if style.leastPositional ≤ exponent && exponent ≤ style.greatestPositional then
    positional digits (exponent + 1)
  else exponential digits exponent

end Decimal

/-- The text of a finite double: its shortest decimal, with the sign in front
also of a zero. -/
def Double.text (style : DecimalStyle) (d : Double) : List Char :=
  (if d.isNegative then ['-'] else []) ++
    if d.magnitude = 0 then "0.0".toList else d.shortest.text style

end Decompiled
