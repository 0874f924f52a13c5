/-!
# The nearest binary number of double precision

A nonnegative number of double precision is a significand below `2 ^ 53` times a power of two.
Quotients of natural numbers are rounded to the nearest such number in exact arithmetic, and a
quotient half way between two of them goes to the one with the even significand.
-/

namespace InfraGraph.Decimal

/-- A nonnegative finite number of double precision, `significand * 2 ^ exponent`. -/
structure Binary where
  /-- Below `2 ^ 53`. -/
  significand : Nat
  /-- At least `-1074`. -/
  exponent : Int
  deriving DecidableEq, Repr

namespace Binary

/-- The bit that leads the significand of a number that has all its digits. -/
def leadingBit : Nat := 0x10000000000000

/-- The number zero. -/
def zero : Binary := ⟨0, -1074⟩

/-- The numerator of the number as a quotient of natural numbers. -/
def numerator (b : Binary) : Nat :=
  b.significand <<< b.exponent.toNat

/-- The denominator of the number as a quotient of natural numbers. -/
def denominator (b : Binary) : Nat :=
  1 <<< (-b.exponent).toNat

/-- The exponent of the leading binary digit of a positive quotient. -/
def leadingExponent (n d : Nat) : Int :=
  let guess : Int := (n.log2 : Int) - (d.log2 : Int)
  if d <<< guess.toNat ≤ n <<< (-guess).toNat then guess else guess - 1

/-- A quotient rounded to a natural number, half way cases to the even one. -/
def roundToEven (n d : Nat) : Nat :=
  let whole := n / d
  let rest := n % d
  if d < 2 * rest ∨ (2 * rest = d ∧ whole % 2 = 1) then whole + 1 else whole

/-- The number nearest to `n / d`, or `none` if it is too large for the format. -/
def ofRatio? (n d : Nat) : Option Binary :=
  if n = 0 then some zero
  else
    let exponent := max (leadingExponent n d - 52) (-1074)
    let significand := roundToEven (n <<< (-exponent).toNat) (d <<< exponent.toNat)
    let rounded : Binary :=
      if significand = 2 * leadingBit then ⟨leadingBit, exponent + 1⟩ else ⟨significand, exponent⟩
    if rounded.exponent ≤ 971 then some rounded else none

/-- The number nearest to a natural number. -/
def ofNat? (n : Nat) : Option Binary :=
  ofRatio? n 1

/-- The product of two numbers, rounded to the nearest number. -/
def mul? (a b : Binary) : Option Binary :=
  ofRatio? (a.numerator * b.numerator) (a.denominator * b.denominator)

/-- The quotient of two numbers, rounded to the nearest number. -/
def div? (a b : Binary) : Option Binary :=
  ofRatio? (a.numerator * b.denominator) (a.denominator * b.numerator)

/-- The bits of the number in the interchange format, without a sign. -/
def toBits (b : Binary) : UInt64 :=
  if b.significand < leadingBit then UInt64.ofNat b.significand
  else UInt64.ofNat ((b.exponent + 1075).toNat * leadingBit + (b.significand - leadingBit))

/-- The number with given bits.  The sign is left out, and the bits are not those of an infinity
or of no number. -/
def ofBits (bits : UInt64) : Binary :=
  let fraction : Nat := bits.toNat % leadingBit
  let biased : Nat := bits.toNat / leadingBit % 2048
  if biased = 0 then ⟨fraction, -1074⟩ else ⟨leadingBit + fraction, (biased : Int) - 1075⟩

/-- The number as a machine float. -/
def toFloat (negative : Bool) (b : Binary) : Float :=
  Float.ofBits (if negative then b.toBits + 0x8000000000000000 else b.toBits)

end Binary

/-- Whether a float carries the sign of the negative numbers. -/
def isNegative (x : Float) : Bool :=
  0x8000000000000000 ≤ x.toBits

/-- Whether a float is neither infinite nor no number. -/
def isFinite (x : Float) : Bool :=
  x.toBits.toNat / Binary.leadingBit % 2048 ≠ 2047

/-- The magnitude of a finite float. -/
def magnitude (x : Float) : Binary :=
  Binary.ofBits x.toBits

end InfraGraph.Decimal
