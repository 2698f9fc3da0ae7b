/-!
# Doubles

A 64-bit floating-point number is kept as its bits, so that `=` tells any two
of them apart. `Double.sameValue` compares them as numbers instead: the two
zeros are the same, and bits that stand for no number differ from everything,
themselves included.
-/

namespace Decompiled

/-- A 64-bit floating-point number, kept as its bits. -/
structure Double where
  bits : UInt64
  deriving DecidableEq, Inhabited

namespace Double

/-- Whether the sign bit is set. -/
def isNegative (d : Double) : Bool := d.bits >>> 63 == 1

/-- The bits without the sign. -/
def magnitude (d : Double) : UInt64 := d.bits &&& 0x7FFFFFFFFFFFFFFF

/-- Whether the bits stand for no number: they lie beyond those of infinity. -/
def isNaN (d : Double) : Bool := 0x7FF0000000000000 < d.magnitude

/-- The eleven bits of the exponent. -/
def biasedExponent (d : Double) : Nat := (d.magnitude >>> 52).toNat

/-- The 52 bits below the exponent. -/
def fraction (d : Double) : Nat := (d.bits &&& 0xFFFFFFFFFFFFF).toNat

/-- Numeric equality: equal bits or two zeros, and never with bits that stand
for no number. -/
def sameValue (a b : Double) : Bool :=
  !a.isNaN && !b.isNaN && (a.bits == b.bits || (a.magnitude == 0 && b.magnitude == 0))

/-- Whether numeric equality is reflexive at a double: it is at every number. -/
theorem sameValue_self (d : Double) : d.sameValue d = !d.isNaN := by
  simp [sameValue]

end Double

end Decompiled
