import InfraGraph.Text.Identifier

/-!
# Natural numbers in arguments

A number is written with decimal digits, of which there is at least one.  A plus sign may stand in
front, and leading zeros have no meaning.
-/

namespace InfraGraph.Text

/-- The number that follows on `value` when more digits are read. -/
def digitsValue? (value : Nat) : List Char → Option Nat
  | [] => some value
  | c :: rest =>
    if isAsciiDigit c then digitsValue? (10 * value + (c.toNat - '0'.toNat)) rest else none

/-- The number that is written without a sign. -/
def unsigned? (digits : List Char) : Option Nat :=
  if digits = [] then none else digitsValue? 0 digits

/-- The number that a text stands for, if it is at most `limit`. -/
def natural? (limit : Nat) (text : String) : Option Nat :=
  let value :=
    match text.toList with
    | '+' :: digits => unsigned? digits
    | digits => unsigned? digits
  value.filter fun n => n ≤ limit

end InfraGraph.Text
