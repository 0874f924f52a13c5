import InfraGraph.Decimal.Nearest

/-!
# The shortest decimal that reads back

Among the decimals that round to a given binary number, the one with the fewest digits is chosen,
and of several of that length the one nearest to the number.  The search looks at the grids of
decimals with one digit, two digits and so on: if any point of a grid rounds to the number, so does
one of the two points next to it.
-/

namespace InfraGraph.Decimal

/-- A nonnegative decimal, `digits * 10 ^ exponent`. -/
structure Scientific where
  /-- The digits, read as one natural number. -/
  digits : Nat
  /-- The power of ten of the last digit. -/
  exponent : Int
  deriving DecidableEq, Repr

/-- The exponent of the leading decimal digit of a positive quotient. -/
def leadingDecimal (n d : Nat) : Int :=
  let guess : Int := ((n.log2 : Int) - (d.log2 : Int)) * 30103 / 100000
  let reached (e : Int) : Bool := d * Nat.pow 10 e.toNat ≤ n * Nat.pow 10 (-e).toNat
  if reached (guess + 2) then guess + 2
  else if reached (guess + 1) then guess + 1
  else if reached guess then guess
  else guess - 1

/-- The numbers that round to a binary number, in quarters of the unit of its last place.  Below a
power of two the neighbours lie closer than above it. -/
structure Rounding where
  low : Nat
  centre : Nat
  high : Nat
  /-- Whether the ends round to the number, which they do if its significand is even. -/
  closed : Bool

/-- The interval of the numbers that round to `b`. -/
def Rounding.of (b : Binary) : Rounding where
  low := if b.significand = Binary.leadingBit ∧ -1074 < b.exponent then 4 * b.significand - 1
    else 4 * b.significand - 2
  centre := 4 * b.significand
  high := 4 * b.significand + 2
  closed := b.significand % 2 = 0

/-- The point of the grid `10 ^ place` that rounds to `b` and is nearest to it, if there is one. -/
def gridPoint? (b : Binary) (place : Int) : Option Scientific :=
  let interval := Rounding.of b
  let quarter := b.exponent - 2
  let up := Nat.pow 10 (-place).toNat <<< quarter.toNat
  let down := Nat.pow 10 place.toNat <<< (-quarter).toNat
  let inside (point : Nat) : Bool :=
    if interval.closed then interval.low * up ≤ point * down && point * down ≤ interval.high * up
    else interval.low * up < point * down && point * down < interval.high * up
  let below := interval.centre * up / down
  let rest := interval.centre * up % down
  let nearer := if 2 * rest < down ∨ (2 * rest = down ∧ below % 2 = 0) then below else below + 1
  let farther := if nearer = below then below + 1 else below
  if inside nearer then some ⟨nearer, place⟩
  else if inside farther then some ⟨farther, place⟩
  else none

/-- Leaves out the zeros at the end of the digits, `fuel` of them at most. -/
def Scientific.trim : Nat → Scientific → Scientific
  | 0, s => s
  | fuel + 1, s =>
    if s.digits ≠ 0 ∧ s.digits % 10 = 0 then trim fuel ⟨s.digits / 10, s.exponent + 1⟩ else s

/-- The shortest decimal that reads back as the positive number `b`.  Seventeen digits always
suffice. -/
def shortest (b : Binary) : Scientific :=
  if b.significand = 0 then ⟨0, 0⟩
  else
    let top := leadingDecimal b.numerator b.denominator
    let hit := (List.range 17).findSome? fun (k : Nat) => gridPoint? b (top - (k : Int))
    Scientific.trim 20 (hit.getD ⟨b.significand, 0⟩)

end InfraGraph.Decimal
