import InfraGraph.Decimal.Notation

/-!
# Numbers of expressions

A number is an integer as long as it fits in 64 bits, and a float of double precision otherwise.
Floats without a fractional part are integers if they fit.
-/

namespace InfraGraph.Hcl

/-- A number. -/
inductive Number where
  | integer (value : Int)
  /-- A float, given by its sign and its magnitude. -/
  | real (negative : Bool) (magnitude : Decimal.Binary)
  deriving DecidableEq, Repr

namespace Number

/-- The number of values of an unsigned word. -/
def unsignedBound : Nat := 0x10000000000000000

/-- The number of values of a signed word that aren't negative. -/
def signedBound : Nat := 0x8000000000000000

/-- The number that a nonnegative float stands for. -/
def ofBinary (b : Decimal.Binary) : Number :=
  if b.numerator % b.denominator = 0 ∧ b.numerator / b.denominator < unsignedBound then
    integer (b.numerator / b.denominator : Nat)
  else real false b

/-- The opposite of a number.  An integer that is too large for a negative word becomes a float. -/
def negate : Number → Number
  | integer value =>
    if value < (signedBound : Int) then integer (-value)
    else real true ((Decimal.Binary.ofNat? value.toNat).getD Decimal.Binary.zero)
  | real negative magnitude => real (!negative) magnitude

/-- The text of a number. -/
def text : Number → List Char
  | integer value => Decimal.integerText value
  | real negative magnitude =>
    let digits := (Decimal.shortest magnitude).text
    if negative then '-' :: digits else digits

/-- The value of a list of digits. -/
def digitsValue (digits : List Char) : Nat :=
  digits.foldl (fun n c => 10 * n + (c.toNat - 48)) 0

/-- The float nearest to a decimal, or `none` if it is too large.  Exponents far from the range of
floats aren't computed. -/
def nearest? (significand : Nat) (exponent : Int) : Option Decimal.Binary :=
  let places : Int := (Nat.toDigits 10 significand).length + exponent
  if significand = 0 ∨ places < -400 then some Decimal.Binary.zero
  else if 400 < places then none
  else Decimal.Binary.ofRatio? (significand * Nat.pow 10 exponent.toNat)
    (Nat.pow 10 (-exponent).toNat)

/-- The digits at the start of a text, of which there has to be at least one. -/
def readDigits (cs : List Char) : Option (List Char × List Char) :=
  match cs.takeWhile Char.isDigit with
  | [] => none
  | digits => some (digits, cs.dropWhile Char.isDigit)

/-- The number that the digits at the start of a text stand for. -/
def readNatural (cs : List Char) : Option (Nat × List Char) :=
  (readDigits cs).map fun (digits, after) => (digitsValue digits, after)

/-- The fraction at the start of a text, if a digit follows the point. -/
def readFraction (cs : List Char) : Option (List Char × List Char) :=
  match cs with
  | '.' :: rest => readDigits rest
  | _ => none

/-- The exponent at the start of a text, if it has a digit. -/
def readExponent (cs : List Char) : Option (Int × List Char) :=
  match cs with
  | [] => none
  | mark :: rest =>
    if mark = 'e' ∨ mark = 'E' then
      match rest with
      | '-' :: more => (readNatural more).map fun (power, after) => (-(power : Int), after)
      | '+' :: more => (readNatural more).map fun (power, after) => ((power : Int), after)
      | more => (readNatural more).map fun (power, after) => ((power : Int), after)
    else none

/-- Takes a nonnegative number off the start of a text.  It is a float if it has a fraction or an
exponent. -/
def read (cs : List Char) : Option (Number × List Char) :=
  match readDigits cs with
  | none => none
  | some (whole, afterWhole) =>
    let fraction := readFraction afterWhole
    let (places, afterFraction) := fraction.getD ([], afterWhole)
    let exponent := readExponent afterFraction
    if fraction.isNone ∧ exponent.isNone then
      let value := digitsValue whole
      if value < unsignedBound then some (integer value, afterWhole) else none
    else
      let (power, after) := exponent.getD (0, afterFraction)
      (nearest? (digitsValue (whole ++ places)) (power - places.length)).map fun b =>
        (ofBinary b, after)

end Number

end InfraGraph.Hcl
