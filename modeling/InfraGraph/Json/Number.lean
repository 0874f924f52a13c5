import InfraGraph.Decimal.Nearest

/-!
# Values of JSON numbers

The text of a number is read as a natural number or as a float.  A float is read in two roundings:
first the digits that fit in 64 bits, then their product or quotient with a power of ten.  Digits
that no longer fit only count as places.
-/

namespace InfraGraph.Json

open Decimal (Binary)

/-- The parts of a number's text. -/
structure NumberParts where
  negative : Bool
  /-- The digits before the point. -/
  whole : List Char
  /-- The point and the digits after it, if there is a point. -/
  fraction : Option (List Char)
  /-- The sign and the digits of the exponent, if there is one. -/
  exponent : Option (Bool × List Char)
  deriving DecidableEq, Repr

/-- The leading digits of a text, and what follows them. -/
def spanDigits (cs : List Char) : List Char × List Char :=
  (cs.takeWhile Char.isDigit, cs.dropWhile Char.isDigit)

/-- The exponent at the start of a text. -/
def readExponent (cs : List Char) : Option (Bool × List Char) × List Char :=
  match cs with
  | [] => (none, [])
  | mark :: rest =>
    if mark = 'e' ∨ mark = 'E' then
      match rest with
      | '-' :: more => let (digits, after) := spanDigits more; (some (true, digits), after)
      | '+' :: more => let (digits, after) := spanDigits more; (some (false, digits), after)
      | more => let (digits, after) := spanDigits more; (some (false, digits), after)
    else (none, cs)

/-- Takes the parts of a number off the start of a text.  At least one digit stands before the
point, after it and in the exponent, and only a lone zero may lead the digits before the point. -/
def readNumber (cs : List Char) : Option (NumberParts × List Char) :=
  let (negative, unsigned) :=
    match cs with
    | '-' :: rest => (true, rest)
    | rest => (false, rest)
  let (whole, afterWhole) := spanDigits unsigned
  let (fraction, afterFraction) :=
    match afterWhole with
    | '.' :: rest => let (digits, after) := spanDigits rest; (some digits, after)
    | rest => (none, rest)
  let (exponent, after) := readExponent afterFraction
  let leadingZero := whole.head? = some '0' ∧ whole.length ≠ 1
  if whole = [] ∨ leadingZero ∨ fraction = some [] ∨ exponent.map (·.2) = some [] then none
  else some (⟨negative, whole, fraction, exponent⟩, after)

/-- The value of a list of digits. -/
def digitsValue (digits : List Char) : Nat :=
  digits.foldl (fun n c => 10 * n + (c.toNat - 48)) 0

/-- The largest number of 64 bits. -/
def maxWord : Nat := 0xFFFFFFFFFFFFFFFF

/-- Appends digits to a significand as long as it fits in 64 bits.  Gives back the significand and
the number of digits that were appended. -/
def appendDigits (significand taken : Nat) : List Char → Nat × Nat
  | [] => (significand, taken)
  | c :: rest =>
    let next := 10 * significand + (c.toNat - 48)
    if next ≤ maxWord then appendDigits next (taken + 1) rest else (significand, taken)

/-- Multiplies a number by a power of ten.  A power below `10 ^ -308` is split into several
divisions, of which `fuel` are made at most. -/
def scale (largest : Binary) : Nat → Binary → Int → Option Binary
  | 0, b, _ => some b
  | fuel + 1, b, exponent =>
    if exponent.natAbs ≤ 308 then
      (Binary.ofNat? (Nat.pow 10 exponent.natAbs)).bind fun power =>
        if 0 ≤ exponent then b.mul? power else b.div? power
    else if b.significand = 0 then some b
    else if 0 ≤ exponent then none
    else (b.div? largest).bind fun smaller => scale largest fuel smaller (exponent + 308)

/-- The float with a significand below `2 ^ 64` and a power of ten. -/
def floatOfParts (significand : Nat) (exponent : Int) : Option Binary :=
  (Binary.ofNat? significand).bind fun b =>
    (Binary.ofNat? (Nat.pow 10 308)).bind fun power => scale power 8 b exponent

/-- The largest exponent that is read digit by digit. -/
def maxExponent : Int := 0x7FFFFFFF

/-- The magnitude of a number as a float, or `none` if it is too large. -/
def NumberParts.magnitude? (p : NumberParts) : Option Binary :=
  let (significand, taken) := appendDigits 0 0 p.whole
  let before : Int := ((p.whole.length - taken : Nat) : Int)
  let (significand, after) := appendDigits significand 0 (p.fraction.getD [])
  let start : Int := before - (after : Int)
  match p.exponent with
  | none => floatOfParts significand start
  | some (negative, digits) =>
    let exponent : Int := (digitsValue digits : Int)
    if maxExponent < exponent then
      if significand ≠ 0 ∧ !negative then none else some Binary.zero
    else floatOfParts significand (if negative then start - exponent else start + exponent)

/-- The value of a number as a float. -/
def NumberParts.float? (p : NumberParts) : Option Float :=
  p.magnitude?.map (Binary.toFloat p.negative)

/-- The value of a number that is written as a natural number, up to a limit. -/
def NumberParts.nat? (limit : Nat) (p : NumberParts) : Option Nat :=
  if !p.negative ∧ p.fraction = none ∧ p.exponent = none ∧ digitsValue p.whole ≤ limit then
    some (digitsValue p.whole)
  else none

end InfraGraph.Json
