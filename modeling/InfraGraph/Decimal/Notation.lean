import InfraGraph.Decimal.Shortest

/-!
# Written floats

A float is written with the fewest digits that read back.  Positional notation is used from
`0.00001` up to sixteen places before the point, scientific notation beyond, and a number in
positional notation always shows a point.
-/

namespace InfraGraph.Decimal

/-- The decimal digits of a natural number. -/
def digitsOf (n : Nat) : List Char :=
  Nat.toDigits 10 n

theorem digitsOf_ne_nil (n : Nat) : digitsOf n ≠ [] :=
  Nat.toDigits_ne_nil

theorem isDigit_of_mem_digitsOf {n : Nat} {c : Char} (h : c ∈ digitsOf n) : c.isDigit = true :=
  Nat.isDigit_of_mem_toDigits (by decide) (by decide) h

/-- An integer in decimal digits. -/
def integerText (n : Int) : List Char :=
  if n < 0 then '-' :: digitsOf n.natAbs else digitsOf n.natAbs

/-- A nonnegative decimal in the notation that its size asks for. -/
def Scientific.text (s : Scientific) : List Char :=
  let digits := digitsOf s.digits
  let places : Int := digits.length + s.exponent
  if s.digits = 0 then ['0', '.', '0']
  else if 0 ≤ s.exponent ∧ places ≤ 16 then
    digits ++ List.replicate s.exponent.toNat '0' ++ ['.', '0']
  else if 0 < places ∧ places ≤ 16 then
    digits.take places.toNat ++ '.' :: digits.drop places.toNat
  else if -5 < places ∧ places ≤ 0 then
    ['0', '.'] ++ List.replicate (-places).toNat '0' ++ digits
  else if digits.length = 1 then
    digits ++ 'e' :: integerText (places - 1)
  else
    digits.take 1 ++ '.' :: digits.drop 1 ++ 'e' :: integerText (places - 1)

/-- A finite float as it is written. -/
def floatText (x : Float) : String :=
  let text := (shortest (magnitude x)).text
  String.ofList (if isNegative x then '-' :: text else text)

end InfraGraph.Decimal
