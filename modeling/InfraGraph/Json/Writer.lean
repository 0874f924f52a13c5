import InfraGraph.Decimal.Notation
import InfraGraph.Json.Basic
import InfraGraph.Text.Quoted

/-!
# Writing JSON

Values are written without blanks, or with every element and member on a line of its own, indented
by two blanks.  Quotes, backslashes and control characters are escaped, everything else stands for
itself.
-/

namespace InfraGraph.Json

/-- One character of a written string. -/
def writeChar (c : Char) : List Char :=
  if c = '"' then ['\\', '"']
  else if c = '\\' then ['\\', '\\']
  else if c = '\n' then ['\\', 'n']
  else if c = '\r' then ['\\', 'r']
  else if c = '\t' then ['\\', 't']
  else if c = '\x08' then ['\\', 'b']
  else if c = '\x0c' then ['\\', 'f']
  else if c.toNat < 32 then
    ['\\', 'u', '0', '0', Text.hexDigit (c.toNat / 16), Text.hexDigit (c.toNat % 16)]
  else [c]

/-- A written string. -/
def writeString (s : String) : List Char :=
  '"' :: s.toList.flatMap writeChar ++ ['"']

/-- The number that stands for a float.  Infinities have no number. -/
def ofFloat (x : Float) : Json :=
  if Decimal.isFinite x then .number (Decimal.floatText x).toList else .null

mutual

/-- A value without blanks. -/
def write : Json → List Char
  | .null => "null".toList
  | .bool b => (if b then "true" else "false").toList
  | .number literal => literal
  | .string s => writeString (s.getD "")
  | .array elements => '[' :: writeElements elements ++ [']']
  | .object members => '\x7b' :: writeMembers members ++ ['\x7d']

/-- Elements with commas between them. -/
def writeElements : List Json → List Char
  | [] => []
  | [element] => write element
  | element :: rest => write element ++ ',' :: writeElements rest

/-- Members with commas between them. -/
def writeMembers : List (Option String × Json) → List Char
  | [] => []
  | [(key, value)] => writeString (key.getD "") ++ ':' :: write value
  | (key, value) :: rest =>
    writeString (key.getD "") ++ ':' :: write value ++ ',' :: writeMembers rest

end

/-- A new line with an indentation. -/
def newLine (level : Nat) : List Char :=
  '\n' :: List.replicate (2 * level) ' '

mutual

/-- A value over several lines, of which the first one is already indented. -/
def pretty (level : Nat) : Json → List Char
  | .null => "null".toList
  | .bool b => (if b then "true" else "false").toList
  | .number literal => literal
  | .string s => writeString (s.getD "")
  | .array [] => ['[', ']']
  | .array elements => '[' :: prettyElements (level + 1) elements ++ newLine level ++ [']']
  | .object [] => ['\x7b', '\x7d']
  | .object members => '\x7b' :: prettyMembers (level + 1) members ++ newLine level ++ ['\x7d']

/-- Elements, each on its line. -/
def prettyElements (level : Nat) : List Json → List Char
  | [] => []
  | [element] => newLine level ++ pretty level element
  | element :: rest => newLine level ++ pretty level element ++ ',' :: prettyElements level rest

/-- Members, each on its line. -/
def prettyMembers (level : Nat) : List (Option String × Json) → List Char
  | [] => []
  | [(key, value)] =>
    newLine level ++ writeString (key.getD "") ++ [':', ' '] ++ pretty level value
  | (key, value) :: rest =>
    newLine level ++ writeString (key.getD "") ++ [':', ' '] ++ pretty level value ++
      ',' :: prettyMembers level rest

end

/-- The text of a value without blanks. -/
def compactText (j : Json) : String :=
  String.ofList j.write

/-- The text of a value over several lines. -/
def prettyText (j : Json) : String :=
  String.ofList (j.pretty 0)

end InfraGraph.Json
