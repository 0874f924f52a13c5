import InfraGraph.Hcl.Expression
import InfraGraph.Hcl.Literal

/-!
# Written expressions

An expression is written on one line, apart from the text of templates.  Elements of arrays and
items of objects are told apart by one flag for the whole expression: it is set by every opening
bracket or brace and cleared by the first element or item behind it, and only with the flag clear a
comma is written.  So an empty collection takes the comma away from what follows it.
-/

namespace InfraGraph.Hcl

/-- The sign of an operator with one operand. -/
def UnaryOperator.sign : UnaryOperator → Char
  | not => '!'
  | minus => '-'

/-- The sign of an operator with two operands. -/
def BinaryOperator.sign : BinaryOperator → List Char
  | equal => ['=', '=']
  | notEqual => ['!', '=']
  | atMost => ['<', '=']
  | atLeast => ['>', '=']
  | less => ['<']
  | greater => ['>']
  | plus => ['+']
  | minus => ['-']
  | times => ['*']
  | divide => ['/']
  | remainder => ['%']
  | and => ['&', '&']
  | or => ['|', '|']

/-- Written text, and the flag that is set behind an opening bracket. -/
structure Written where
  text : List Char
  first : Bool

/-- Text that leaves the flag as it is. -/
def Written.ofText (text : List Char) (first : Bool) : Written := ⟨text, first⟩

/-- The names of the variables of a for expression. -/
def forNames (names : List String) : List Char :=
  (String.intercalate ", " names).toList

/-- The text of a heredoc, which ends with a line end in front of the mark. -/
def heredocText (indented : Bool) (mark text : String) : List Char :=
  let body := text.toList
  let closed := if body.getLast? = some '\n' then body else body ++ ['\n']
  ['<', '<'] ++ (if indented then ['-'] else []) ++ mark.toList ++ '\n' :: closed ++ mark.toList

mutual

/-- Writes an expression. -/
def writeExpression (first : Bool) : Expression → Written
  | .null => ⟨"null".toList, first⟩
  | .bool b => ⟨(if b then "true" else "false").toList, first⟩
  | .number n => ⟨n.text, first⟩
  | .string s => ⟨'"' :: escapeText s.toList ++ ['"'], first⟩
  | .template text => ⟨'"' :: text.toList ++ ['"'], first⟩
  | .heredoc indented mark text => ⟨heredocText indented mark text, first⟩
  | .array elements =>
    let inner := writeElements true elements
    ⟨'[' :: inner.text ++ [']'], inner.first⟩
  | .object items =>
    let inner := writeItems true items
    ⟨'\x7b' :: inner.text ++ (if items.isEmpty then ['\x7d'] else [' ', '\x7d']), inner.first⟩
  | .variable name => ⟨name.toList, first⟩
  | .traversal operand steps =>
    let start := writeExpression first operand
    let rest := writeSteps start.first steps
    ⟨start.text ++ rest.text, rest.first⟩
  | .call function arguments expand =>
    let inner := writeArguments first arguments
    ⟨function.toList ++ '(' :: inner.text ++ (if expand then "...)" else ")").toList, inner.first⟩
  | .parentheses inner =>
    let written := writeExpression first inner
    ⟨'(' :: written.text ++ [')'], written.first⟩
  | .unary operator operand =>
    let written := writeExpression first operand
    ⟨operator.sign :: written.text, written.first⟩
  | .chain start rest =>
    let head := writeExpression first start
    let tail := writeChain head.first rest
    ⟨head.text ++ tail.text, tail.first⟩
  | .conditional condition yes no =>
    let c := writeExpression first condition
    let y := writeExpression c.first yes
    let n := writeExpression y.first no
    ⟨c.text ++ [' ', '?', ' '] ++ y.text ++ [' ', ':', ' '] ++ n.text, n.first⟩
  | .listFor names collection value condition =>
    let c := writeExpression first collection
    let v := writeExpression c.first value
    let i := writeConditions v.first condition
    ⟨"[for ".toList ++ forNames names ++ " in ".toList ++ c.text ++ [' ', ':', ' '] ++ v.text ++
      i.text ++ [']'], i.first⟩
  | .objectFor names collection key value group condition =>
    let c := writeExpression first collection
    let k := writeExpression c.first key
    let v := writeExpression k.first value
    let i := writeConditions v.first condition
    ⟨"\x7bfor ".toList ++ forNames names ++ " in ".toList ++ c.text ++ [' ', ':', ' '] ++ k.text ++
      " => ".toList ++ v.text ++ (if group then "..." else "").toList ++ i.text ++ ['\x7d'],
      i.first⟩

/-- Writes the elements of an array. -/
def writeElements (first : Bool) : List Expression → Written
  | [] => ⟨[], first⟩
  | element :: rest =>
    let written := writeExpression false element
    let more := writeElements written.first rest
    ⟨(if first then [] else [',', ' ']) ++ written.text ++ more.text, more.first⟩

/-- Writes the items of an object. -/
def writeItems (first : Bool) : List (Key × Expression) → Written
  | [] => ⟨[], first⟩
  | (key, value) :: rest =>
    let k := writeKey false key
    let v := writeExpression k.first value
    let more := writeItems v.first rest
    ⟨(if first then [' '] else [',', ' ']) ++ k.text ++ [' ', '=', ' '] ++ v.text ++ more.text,
      more.first⟩

/-- Writes a key. -/
def writeKey (first : Bool) : Key → Written
  | .name name => ⟨name.toList, first⟩
  | .value key => writeExpression first key

/-- Writes the steps of a traversal. -/
def writeSteps (first : Bool) : List Step → Written
  | [] => ⟨[], first⟩
  | step :: rest =>
    let written := writeStep first step
    let more := writeSteps written.first rest
    ⟨written.text ++ more.text, more.first⟩

/-- Writes a step of a traversal. -/
def writeStep (first : Bool) : Step → Written
  | .attribute name => ⟨'.' :: name.toList, first⟩
  | .position index => ⟨'.' :: Decimal.digitsOf index, first⟩
  | .dotSplat => ⟨['.', '*'], first⟩
  | .splat => ⟨['[', '*', ']'], first⟩
  | .index key =>
    let written := writeExpression first key
    ⟨'[' :: written.text ++ [']'], written.first⟩

/-- Writes the arguments of a call. -/
def writeArguments (first : Bool) : List Expression → Written
  | [] => ⟨[], first⟩
  | [argument] => writeExpression first argument
  | argument :: rest =>
    let written := writeExpression first argument
    let more := writeArguments written.first rest
    ⟨written.text ++ ',' :: ' ' :: more.text, more.first⟩

/-- Writes operators with their second operands. -/
def writeChain (first : Bool) : List (BinaryOperator × Expression) → Written
  | [] => ⟨[], first⟩
  | (operator, operand) :: rest =>
    let written := writeExpression first operand
    let more := writeChain written.first rest
    ⟨' ' :: operator.sign ++ ' ' :: written.text ++ more.text, more.first⟩

/-- Writes the condition of a for expression, if it has one. -/
def writeConditions (first : Bool) : List Expression → Written
  | [] => ⟨[], first⟩
  | condition :: rest =>
    let written := writeExpression first condition
    let more := writeConditions written.first rest
    ⟨" if ".toList ++ written.text ++ more.text, more.first⟩

end

/-- The text of an expression. -/
def Expression.text (e : Expression) : String :=
  String.ofList (writeExpression true e).text

end InfraGraph.Hcl
