import InfraGraph.Text.Identifier
import InfraGraph.Text.Quoted

/-!
# Characters of configuration files

Blanks and comments, identifiers, and the escapes of quoted text.
-/

namespace InfraGraph.Hcl

/-- The text behind a line end, if there is one. -/
def lineEnd? : List Char → Option (List Char)
  | '\n' :: rest => some rest
  | '\r' :: '\n' :: rest => some rest
  | _ => none

/-- The rest of a line. -/
def dropLine (cs : List Char) : List Char :=
  cs.dropWhile fun c => c ≠ '\n' ∧ c ≠ '\r'

mutual

/-- Leaves out blanks and comments.  With `lines` they may go over several lines, otherwise only
blanks and closed comments count. -/
def skipBlanks (lines : Bool) : List Char → List Char
  | ' ' :: rest => skipBlanks lines rest
  | '\t' :: rest => skipBlanks lines rest
  | '\n' :: rest => if lines then skipBlanks lines rest else '\n' :: rest
  | '\r' :: '\n' :: rest => if lines then skipBlanks lines rest else '\r' :: '\n' :: rest
  | '#' :: rest => if lines then skipLineComment rest else '#' :: rest
  | '/' :: '/' :: rest => if lines then skipLineComment rest else '/' :: '/' :: rest
  | '/' :: '*' :: rest => skipClosedComment lines ('/' :: '*' :: rest) rest
  | cs => cs

/-- Leaves out the rest of a line and the blanks and comments behind it. -/
def skipLineComment : List Char → List Char
  | [] => []
  | '\n' :: rest => skipBlanks true rest
  | '\r' :: '\n' :: rest => skipBlanks true rest
  | c :: rest => if c = '\r' then '\r' :: rest else skipLineComment rest

/-- Leaves out what is behind the opening of a closed comment, and the blanks and comments that
follow.  If the comment has no end nothing is left out, `whole` is the text with its opening. -/
def skipClosedComment (lines : Bool) (whole : List Char) : List Char → List Char
  | [] => whole
  | '*' :: '/' :: rest => skipBlanks lines rest
  | _ :: rest => skipClosedComment lines whole rest

end

/-- Leaves out blanks at the end of a line, a comment, and the line end. -/
def skipToNextLine? (cs : List Char) : Option (List Char) :=
  let rest := skipBlanks false cs
  let rest :=
    match rest with
    | '#' :: _ => dropLine rest
    | '/' :: '/' :: _ => dropLine rest
    | _ => rest
  match rest with
  | [] => some []
  | _ => lineEnd? rest

/-- Takes an identifier off a text. -/
def readIdentifier (cs : List Char) : Option (String × List Char) :=
  match cs with
  | [] => none
  | first :: rest =>
    if Text.isIdentifierStart first then
      some (String.ofList (first :: rest.takeWhile Text.isIdentifierRest),
        rest.dropWhile Text.isIdentifierRest)
    else none

/-- The text behind a given one. -/
def afterText? (word : List Char) (cs : List Char) : Option (List Char) :=
  if word.isPrefixOf cs then some (cs.drop word.length) else none

/-- The value of a hexadecimal digit of either case. -/
def hexDigitValue? (c : Char) : Option Nat :=
  if '0' ≤ c ∧ c ≤ '9' then some (c.toNat - 48)
  else if 'a' ≤ c ∧ c ≤ 'f' then some (c.toNat - 87)
  else if 'A' ≤ c ∧ c ≤ 'F' then some (c.toNat - 55)
  else none

/-- The character whose code is given by hexadecimal digits. -/
def charOfHex? (digits : List Char) : Option Char :=
  match digits.mapM hexDigitValue? with
  | none => none
  | some values =>
    let code := values.foldl (fun n d => 16 * n + d) 0
    if code < 0xD800 ∨ (0xE000 ≤ code ∧ code < 0x110000) then some (Char.ofNat code) else none

/-- Takes the character of an escape off a text that starts behind the backslash. -/
def readEscape : List Char → Option (Char × List Char)
  | '"' :: rest => some ('"', rest)
  | '\\' :: rest => some ('\\', rest)
  | '/' :: rest => some ('/', rest)
  | 'b' :: rest => some ('\x08', rest)
  | 'f' :: rest => some ('\x0c', rest)
  | 'n' :: rest => some ('\n', rest)
  | 'r' :: rest => some ('\r', rest)
  | 't' :: rest => some ('\t', rest)
  | 'u' :: rest =>
    if 4 ≤ rest.length then (charOfHex? (rest.take 4)).map (·, rest.drop 4) else none
  | 'U' :: rest =>
    if 8 ≤ rest.length then (charOfHex? (rest.take 8)).map (·, rest.drop 8) else none
  | _ => none

/-- Doubles the dollar or percent signs that would otherwise start an interpolation or a
directive. -/
def guardMarkers : List Char → List Char
  | '$' :: '\x7b' :: rest => '$' :: '$' :: '\x7b' :: guardMarkers rest
  | '%' :: '\x7b' :: rest => '%' :: '%' :: '\x7b' :: guardMarkers rest
  | c :: rest => c :: guardMarkers rest
  | [] => []

/-- One character of quoted text. -/
def escapeChar (c : Char) : List Char :=
  if c = '"' then ['\\', '"']
  else if c = '\\' then ['\\', '\\']
  else if c = '\n' then ['\\', 'n']
  else if c = '\r' then ['\\', 'r']
  else if c = '\t' then ['\\', 't']
  else if c = '\x08' then ['\\', 'b']
  else if c = '\x0c' then ['\\', 'f']
  else if c.toNat < 32 then
    ['\\', 'u', '0', '0', Text.hexDigit (c.toNat / 16), Text.hexDigit (c.toNat % 16)]
  else [c]

/-- The text of a string between its quotes. -/
def escapeText (cs : List Char) : List Char :=
  (guardMarkers cs).flatMap escapeChar

end InfraGraph.Hcl
