import InfraGraph.Text.Quoted

/-!
# Lower case hexadecimal text

Two digits stand for a byte, the high half first.  Reading accepts exactly what writing produces:
an odd number of digits and every symbol that isn't a lower case digit are refused, with the place
of the fault.
-/

namespace InfraGraph.Text

/-- Why a text is not the hexadecimal form of some bytes. -/
inductive HexError where
  /-- The number of symbols is odd.  `position` is where the half byte starts. -/
  | length (position : Nat)
  /-- The symbol at `position` is not a digit. -/
  | symbol (position : Nat)
  deriving DecidableEq, Repr

/-- The wording of a fault in hexadecimal text. -/
def HexError.message : HexError → String
  | .length position => "invalid length at " ++ toString position
  | .symbol position => "invalid symbol at " ++ toString position

/-- The two digits of a byte. -/
def hexOfByte (b : UInt8) : List Char :=
  [hexDigit (b.toNat / 16), hexDigit (b.toNat % 16)]

/-- The hexadecimal form of a list of bytes. -/
def hexOfBytes (bytes : List UInt8) : String :=
  String.ofList (bytes.flatMap hexOfByte)

/-- The value of a lower case hexadecimal digit, given by its ASCII code. -/
def hexValue? (symbol : UInt8) : Option Nat :=
  let code := symbol.toNat
  if 48 ≤ code ∧ code ≤ 57 then some (code - 48)
  else if 97 ≤ code ∧ code ≤ 102 then some (code - 87)
  else none

/-- Reads pairs of symbols.  `position` is the place of the first one in the whole text. -/
def bytesOfHexFrom (position : Nat) : List UInt8 → Except HexError (List UInt8)
  | [] => .ok []
  | [_] => .error (.length position)
  | high :: low :: rest =>
    match hexValue? high, hexValue? low with
    | some h, some l => (bytesOfHexFrom (position + 2) rest).map (UInt8.ofNat (16 * h + l) :: ·)
    | none, _ => .error (.symbol position)
    | _, none => .error (.symbol (position + 1))

/-- Reads hexadecimal text.  An odd length is reported before any symbol is looked at. -/
def bytesOfHex (text : String) : Except HexError (List UInt8) :=
  let symbols := text.toUTF8.toList
  if symbols.length % 2 = 1 then .error (.length (symbols.length - 1))
  else bytesOfHexFrom 0 symbols

end InfraGraph.Text
