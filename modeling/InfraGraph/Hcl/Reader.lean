import InfraGraph.Hcl.Expression
import InfraGraph.Hcl.Literal
import InfraGraph.Hcl.Template
import InfraGraph.Hcl.Writer

/-!
# Reading configuration files

A file is a body: attributes and blocks, each on lines of its own.  Every way not to be well-formed
is the same failure.  Each step of the reader either takes something off the text or descends by one
of a few levels, so a bound on the steps that grows with the length of the text is never reached.
-/

namespace InfraGraph.Hcl

/-- An operator with two operands at the start of a text. -/
def readOperator : List Char → Option (BinaryOperator × List Char)
  | '=' :: '=' :: rest => some (.equal, rest)
  | '!' :: '=' :: rest => some (.notEqual, rest)
  | '<' :: '=' :: rest => some (.atMost, rest)
  | '>' :: '=' :: rest => some (.atLeast, rest)
  | '&' :: '&' :: rest => some (.and, rest)
  | '|' :: '|' :: rest => some (.or, rest)
  | '<' :: rest => some (.less, rest)
  | '>' :: rest => some (.greater, rest)
  | '+' :: rest => some (.plus, rest)
  | '-' :: rest => some (.minus, rest)
  | '*' :: rest => some (.times, rest)
  | '/' :: '/' :: _ => none
  | '/' :: rest => some (.divide, rest)
  | '%' :: rest => some (.remainder, rest)
  | _ => none

/-- The operators in front of an operand, of which only the last one is kept.  A minus sign in front
of a digit belongs to the number. -/
def readUnary (kept : Option UnaryOperator) : (fuel : Nat) → List Char →
    Option UnaryOperator × List Char
  | 0, cs => (kept, cs)
  | fuel + 1, cs =>
    match skipBlanks false cs with
    | '!' :: rest => readUnary (some .not) fuel rest
    | '-' :: rest =>
      match rest with
      | c :: _ => if c.isDigit then (kept, '-' :: rest) else readUnary (some .minus) fuel rest
      | [] => readUnary (some .minus) fuel rest
    | rest => (kept, rest)

/-- A number, with a minus sign right in front of it if it is negative. -/
def readNumber : List Char → Option (Number × List Char)
  | '-' :: rest => (Number.read rest).map fun (n, after) => (n.negate, after)
  | cs => Number.read cs

/-- The parts of a name behind double colons. -/
def readNameParts : (fuel : Nat) → List Char → List String × List Char
  | 0, cs => ([], cs)
  | fuel + 1, cs =>
    match skipBlanks false cs with
    | ':' :: ':' :: rest =>
      match readIdentifier (skipBlanks false rest) with
      | some (name, after) =>
        let (names, after) := readNameParts fuel after
        (name :: names, after)
      | none => ([], cs)
    | _ => ([], cs)

/-- Whether a text starts with the word that introduces a for expression. -/
def startsFor (cs : List Char) : Bool :=
  match cs with
  | 'f' :: 'o' :: 'r' :: c :: _ =>
    c = ' ' || c = '\t' || c = '\n' || c = '\r' || c = '#' || c = '/'
  | _ => false

/-- The names and the word `in` at the start of a for expression, behind the word that introduces
it. -/
def readForNames (cs : List Char) : Option (List String × List Char) := do
  let (first, rest) ← readIdentifier (skipBlanks true cs)
  let rest := skipBlanks true rest
  let (names, rest) ←
    match rest with
    | ',' :: more => do
      let (second, rest) ← readIdentifier (skipBlanks true more)
      some ([first, second], skipBlanks true rest)
    | _ => some ([first], rest)
  let rest ← afterText? ['i', 'n'] rest
  return (names, skipBlanks true rest)

/-- The mark of a heredoc behind the signs that introduce it: whether it is indented, and its name.
The line ends with the name. -/
def readHeredocMark (cs : List Char) : Option ((Bool × String) × List Char) := do
  let (indented, rest) :=
    match cs with
    | '-' :: rest => (true, rest)
    | rest => (false, rest)
  let (mark, rest) ← readIdentifier rest
  let rest ← lineEnd? rest
  return ((indented, mark), rest)

/-- The text behind the mark that ends a heredoc, at the start of a line.  Blanks may stand in front
of it. -/
def heredocEnd? (mark : String) (cs : List Char) : Option (List Char) :=
  match afterText? mark.toList (cs.dropWhile fun c => c = ' ' ∨ c = '\t') with
  | none => none
  | some rest =>
    match rest with
    | c :: _ => if Text.isIdentifierRest c then none else some rest
    | [] => some []

/-- What a template stands in. -/
inductive TemplateKind where
  /-- Between quotes, with escapes. -/
  | quoted
  /-- Between lines with a mark. -/
  | heredoc (mark : String)
  deriving DecidableEq, Repr

/-- Adds a character to the text at the front of a template. -/
def consText (cs : List Char) : List Piece → List Piece
  | .text more :: rest => .text (cs ++ more) :: rest
  | pieces => .text cs :: pieces

/-- The pieces of a template as pieces inside a directive. -/
def innerPieces (pieces : List Piece) : List Piece :=
  pieces.map fun
    | .text cs => .inner cs
    | piece => piece

/-- The part of a text in front of its rest. -/
def takenFrom (cs rest : List Char) : List Char :=
  cs.take (cs.length - rest.length)

/-- The text behind the end of a piece of code. -/
def codeEnd? (cs : List Char) : Option (List Char) :=
  match skipBlanks true cs with
  | '~' :: '\x7d' :: rest => some rest
  | '\x7d' :: rest => some rest
  | _ => none

/-- The text behind a strip marker, if there is one. -/
def dropStrip : List Char → List Char
  | '~' :: rest => rest
  | cs => cs

/-- The text of a directive behind its opening sign and its first word. -/
def directiveWord (cs : List Char) : Option (String × List Char) :=
  readIdentifier (skipBlanks true (dropStrip (cs.drop 2)))

/-- The text behind a directive that is only a word. -/
def closeDirective? (word : String) (cs : List Char) : Option (List Char) :=
  match directiveWord cs with
  | some (found, rest) => if found = word then codeEnd? rest else none
  | none => none

/-- The text behind the sign between the key and the value of an object item. -/
def keySign? (cs : List Char) : Option (List Char) :=
  match skipBlanks false cs with
  | '=' :: rest => some rest
  | ':' :: rest => some rest
  | _ => none

/-- The key that an expression is. -/
def Key.ofExpression : Expression → Key
  | .variable text => .name text
  | e => .value e

/-- The value of a name that stands for itself. -/
def Expression.ofName (name : String) : Expression :=
  if name = "null" then .null
  else if name = "true" then .bool true
  else if name = "false" then .bool false
  else .variable name

/-- Puts an item into an object.  A key that is there already keeps its place and gets the new
value. -/
def insertItem (key : Key) (value : Expression) :
    List (Key × Expression) → List (Key × Expression)
  | [] => [(key, value)]
  | (k, v) :: rest =>
    let same : Bool :=
      match key, k with
      | .name a, .name b => a = b
      | .value a, .value b => a.text = b.text
      | _, _ => false
    if same then (k, value) :: rest else (k, v) :: insertItem key value rest

/-- The expression that a quoted template is. -/
def Expression.ofQuoted (pieces : List Piece) : Expression :=
  match Piece.plain? pieces with
  | some cs => .string (String.ofList cs)
  | none => .template (templateText pieces)

/-- The expression that a heredoc is.  Its lines lose the indentation that they share. -/
def Expression.ofHeredoc (indented : Bool) (mark : String) (pieces : List Piece) : Expression :=
  let count := if indented then (sharedIndent true pieces).getD 0 else 0
  .heredoc (count ≠ 0) mark
    (templateText (if count = 0 then pieces else dedent count true pieces))

mutual

/-- An expression.  With `lines` it may go on behind a line end. -/
def readExpression : (fuel : Nat) → (lines : Bool) → List Char → Option (Expression × List Char)
  | 0, _, _ => none
  | fuel + 1, lines, cs => do
    let (first, rest) ← readOperand fuel lines cs
    let (chain, rest) ← readChain fuel lines rest
    let condition := if chain.isEmpty then first else .chain first chain
    match skipBlanks lines rest with
    | '?' :: more => do
      let (yes, rest) ← readExpression fuel lines (skipBlanks lines more)
      match skipBlanks lines rest with
      | ':' :: more => do
        let (no, rest) ← readExpression fuel lines (skipBlanks lines more)
        return (.conditional condition yes no, rest)
      | _ => none
    | _ => return (condition, rest)

/-- Operators with their second operands. -/
def readChain : (fuel : Nat) → (lines : Bool) → List Char →
    Option (List (BinaryOperator × Expression) × List Char)
  | 0, _, _ => none
  | fuel + 1, lines, cs =>
    match readOperator (skipBlanks lines cs) with
    | none => some ([], cs)
    | some (operator, rest) => do
      let (operand, rest) ← readOperand fuel lines (skipBlanks lines rest)
      let (chain, rest) ← readChain fuel lines rest
      return ((operator, operand) :: chain, rest)

/-- An operand with the operators in front of it and the steps behind it. -/
def readOperand : (fuel : Nat) → (lines : Bool) → List Char → Option (Expression × List Char)
  | 0, _, _ => none
  | fuel + 1, lines, cs => do
    let (operator, rest) := readUnary none fuel cs
    let (term, rest) ← readTerm fuel rest
    let (steps, rest) ← readSteps fuel lines rest
    let operand := if steps.isEmpty then term else .traversal term steps
    match operator with
    | some operator => return (.unary operator operand, rest)
    | none => return (operand, rest)

/-- An expression without operators. -/
def readTerm : (fuel : Nat) → List Char → Option (Expression × List Char)
  | 0, _ => none
  | fuel + 1, cs =>
    match cs with
    | '"' :: rest => do
      let (pieces, rest) ← readPieces fuel .quoted false rest
      match rest with
      | '"' :: rest => return (.ofQuoted pieces, rest)
      | _ => none
    | '<' :: '<' :: rest => do
      let ((indented, mark), rest) ← readHeredocMark rest
      let (pieces, rest) ← readPieces fuel (.heredoc mark) true rest
      let rest ← heredocEnd? mark rest
      return (.ofHeredoc indented mark pieces, rest)
    | '[' :: rest =>
      let inner := skipBlanks true rest
      if startsFor inner then readListFor fuel (inner.drop 3)
      else do
        let (elements, rest) ← readElements fuel inner
        return (.array elements, rest)
    | '\x7b' :: rest =>
      let inner := skipBlanks true rest
      if startsFor inner then readObjectFor fuel (inner.drop 3)
      else do
        let (items, rest) ← readItems fuel inner
        return (.object (items.foldl (fun object (key, value) => insertItem key value object) []),
          rest)
    | '(' :: rest => do
      let (inner, rest) ← readExpression fuel true (skipBlanks true rest)
      match skipBlanks true rest with
      | ')' :: rest => return (.parentheses inner, rest)
      | _ => none
    | c :: _ =>
      if c = '-' ∨ c.isDigit then (readNumber cs).map fun (n, rest) => (.number n, rest)
      else do
        let (name, rest) ← readIdentifier cs
        let (more, rest) := readNameParts fuel rest
        match skipBlanks false rest with
        | '(' :: rest => do
          let (arguments, expand, rest) ← readArguments fuel (skipBlanks true rest)
          return (.call (String.intercalate "::" (name :: more)) arguments expand, rest)
        | _ => if more.isEmpty then return (.ofName name, rest) else none
    | [] => none

/-- The steps behind a term.  With `lines` a step may stand behind a line end. -/
def readSteps : (fuel : Nat) → (lines : Bool) → List Char → Option (List Step × List Char)
  | 0, _, _ => none
  | fuel + 1, lines, cs =>
    match skipBlanks lines cs with
    | '.' :: rest =>
      match skipBlanks true rest with
      | '*' :: rest => do
        let (steps, rest) ← readSteps fuel lines rest
        return (.dotSplat :: steps, rest)
      | rest =>
        match Number.readDigits rest, readIdentifier rest with
        | some (digits, after), _ =>
          if Number.digitsValue digits < Number.unsignedBound then do
            let (steps, after) ← readSteps fuel lines after
            return (.position (Number.digitsValue digits) :: steps, after)
          else none
        | none, some (name, after) => do
          let (steps, after) ← readSteps fuel lines after
          return (.attribute name :: steps, after)
        | none, none => some ([], cs)
    | '[' :: rest => do
      let (step, rest) ← readIndex fuel (skipBlanks true rest)
      match skipBlanks true rest with
      | ']' :: rest => do
        let (steps, rest) ← readSteps fuel lines rest
        return (step :: steps, rest)
      | _ => none
    | _ => some ([], cs)

/-- What stands between the brackets of a step. -/
def readIndex : (fuel : Nat) → List Char → Option (Step × List Char)
  | 0, _ => none
  | _, '*' :: rest => some (.splat, rest)
  | fuel + 1, cs => do
    let (key, rest) ← readExpression fuel true cs
    return (.index key, rest)

/-- The elements of an array up to its closing bracket. -/
def readElements : (fuel : Nat) → List Char → Option (List Expression × List Char)
  | 0, _ => none
  | _, ']' :: rest => some ([], rest)
  | fuel + 1, cs => do
    let (element, rest) ← readExpression fuel true cs
    match skipBlanks true rest with
    | ',' :: more => do
      let (elements, rest) ← readElements fuel (skipBlanks true more)
      return (element :: elements, rest)
    | ']' :: rest => return ([element], rest)
    | _ => none

/-- The arguments of a call up to its closing parenthesis, and whether the last one stands for
several. -/
def readArguments : (fuel : Nat) → List Char → Option (List Expression × Bool × List Char)
  | 0, _ => none
  | _, ')' :: rest => some ([], false, rest)
  | fuel + 1, cs => do
    let (argument, rest) ← readExpression fuel true cs
    match skipBlanks true rest with
    | ',' :: more => do
      let (arguments, expand, rest) ← readArguments fuel (skipBlanks true more)
      return (argument :: arguments, expand, rest)
    | ')' :: rest => return ([argument], false, rest)
    | '.' :: '.' :: '.' :: more =>
      match skipBlanks true more with
      | ')' :: rest => return ([argument], true, rest)
      | _ => none
    | _ => none

/-- The items of an object up to its closing brace.  An item ends with a comma or with its line. -/
def readItems : (fuel : Nat) → List Char → Option (List (Key × Expression) × List Char)
  | 0, _ => none
  | _, '\x7d' :: rest => some ([], rest)
  | fuel + 1, cs => do
    let (key, rest) ← readExpression fuel false cs
    let rest ← keySign? rest
    let (value, rest) ← readExpression fuel false (skipBlanks false rest)
    let item := (Key.ofExpression key, value)
    match skipBlanks false rest with
    | ',' :: more => do
      let (items, rest) ← readItems fuel (skipBlanks true more)
      return (item :: items, rest)
    | '\x7d' :: rest => return ([item], rest)
    | _ => do
      let rest ← skipToNextLine? rest
      let (items, rest) ← readItems fuel (skipBlanks true rest)
      return (item :: items, rest)

/-- The condition of a for expression, if there is one. -/
def readCondition : (fuel : Nat) → List Char → Option (List Expression × List Char)
  | 0, _ => none
  | fuel + 1, cs =>
    match afterText? ['i', 'f'] (skipBlanks true cs) with
    | none => some ([], cs)
    | some rest => do
      let (condition, rest) ← readExpression fuel true (skipBlanks true rest)
      return ([condition], rest)

/-- A list made by a for expression, behind the word that introduces it. -/
def readListFor : (fuel : Nat) → List Char → Option (Expression × List Char)
  | 0, _ => none
  | fuel + 1, cs => do
    let (names, rest) ← readForNames cs
    let (collection, rest) ← readExpression fuel true rest
    let rest ← afterText? [':'] (skipBlanks true rest)
    let (value, rest) ← readExpression fuel true (skipBlanks true rest)
    let (condition, rest) ← readCondition fuel rest
    let rest ← afterText? [']'] (skipBlanks true rest)
    return (.listFor names collection value condition, rest)

/-- An object made by a for expression, behind the word that introduces it. -/
def readObjectFor : (fuel : Nat) → List Char → Option (Expression × List Char)
  | 0, _ => none
  | fuel + 1, cs => do
    let (names, rest) ← readForNames cs
    let (collection, rest) ← readExpression fuel true rest
    let rest ← afterText? [':'] (skipBlanks true rest)
    let (key, rest) ← readExpression fuel true (skipBlanks true rest)
    let rest ← afterText? ['=', '>'] (skipBlanks true rest)
    let (value, rest) ← readExpression fuel true (skipBlanks true rest)
    let (group, rest) :=
      match afterText? ['.', '.', '.'] (skipBlanks true rest) with
      | some more => (true, more)
      | none => (false, rest)
    let (condition, rest) ← readCondition fuel rest
    let rest ← afterText? ['\x7d'] (skipBlanks true rest)
    return (.objectFor names collection key value group condition, rest)

/-- The pieces of a template up to its end, or up to a directive that ends the one it lies in.
`lineStart` says whether a line starts here. -/
def readPieces : (fuel : Nat) → TemplateKind → (lineStart : Bool) → List Char →
    Option (List Piece × List Char)
  | 0, _, _, _ => none
  | fuel + 1, kind, lineStart, cs =>
    let ended : Bool :=
      match kind with
      | .quoted => cs.head? = some '"'
      | .heredoc mark => lineStart && (heredocEnd? mark cs).isSome
    if ended then some ([], cs)
    else
      match cs with
      | [] => none
      | '$' :: '$' :: '\x7b' :: rest => do
        let (pieces, rest) ← readPieces fuel kind false rest
        return (consText ['$', '\x7b'] pieces, rest)
      | '%' :: '%' :: '\x7b' :: rest => do
        let (pieces, rest) ← readPieces fuel kind false rest
        return (consText ['%', '\x7b'] pieces, rest)
      | '$' :: '\x7b' :: inner => do
        let (_, rest) ← readExpression fuel true (skipBlanks true (dropStrip inner))
        let rest ← codeEnd? rest
        let (pieces, after) ← readPieces fuel kind false rest
        return (.code (takenFrom cs rest) :: pieces, after)
      | '%' :: '\x7b' :: _ =>
        match directiveWord cs with
        | none => none
        | some (word, behind) =>
          if word = "if" ∨ word = "for" then do
            let (directive, rest) ← readDirective fuel kind word cs behind
            let (pieces, after) ← readPieces fuel kind false rest
            return (directive ++ pieces, after)
          else some ([], cs)
      | '\\' :: rest =>
        match kind with
        | .quoted => do
          let (c, rest) ← readEscape rest
          let (pieces, rest) ← readPieces fuel kind false rest
          return (consText [c] pieces, rest)
        | .heredoc _ => do
          let (pieces, rest) ← readPieces fuel kind false rest
          return (consText ['\\'] pieces, rest)
      | c :: rest => do
        let (pieces, rest) ← readPieces fuel kind (c = '\n') rest
        return (consText [c] pieces, rest)

/-- A directive whose first word is known, with everything up to its end.  `cs` starts with the
directive, `behind` behind its first word. -/
def readDirective : (fuel : Nat) → TemplateKind → (word : String) → (cs behind : List Char) →
    Option (List Piece × List Char)
  | 0, _, _, _, _ => none
  | fuel + 1, kind, word, cs, behind => do
    let start ←
      if word = "if" then some (skipBlanks true behind)
      else (readForNames behind).map (·.2)
    let (_, rest) ← readExpression fuel true start
    let rest ← codeEnd? rest
    let (body, atEnd) ← readPieces fuel kind false rest
    let opening := Piece.code (takenFrom cs rest) :: innerPieces body
    if word = "for" then
      let rest ← closeDirective? "endfor" atEnd
      return (opening ++ [.code (takenFrom atEnd rest)], rest)
    else
      match closeDirective? "endif" atEnd with
      | some rest => return (opening ++ [.code (takenFrom atEnd rest)], rest)
      | none =>
        let rest ← closeDirective? "else" atEnd
        let (other, atEnd') ← readPieces fuel kind false rest
        let rest' ← closeDirective? "endif" atEnd'
        return (opening ++ .code (takenFrom atEnd rest) :: innerPieces other ++
          [.code (takenFrom atEnd' rest')], rest')

end

/-- The labels of a block up to its opening brace. -/
def readLabels : (fuel : Nat) → List Char → Option (List String × List Char)
  | 0, _ => none
  | fuel + 1, cs =>
    match skipBlanks false cs with
    | '\x7b' :: rest => some ([], rest)
    | '"' :: rest => do
      let (pieces, rest) ← readPieces (rest.length + 1) .quoted false rest
      let label ← Piece.plain? pieces
      let rest ← afterText? ['"'] rest
      let (labels, rest) ← readLabels fuel rest
      return (String.ofList label :: labels, rest)
    | other => do
      let (label, rest) ← readIdentifier other
      let (labels, rest) ← readLabels fuel rest
      return (label :: labels, rest)

/-- An expression that may be as deep as its text is long. -/
def readWholeExpression (cs : List Char) : Option (Expression × List Char) :=
  readExpression (8 * cs.length + 16) false cs

/-- The value of an attribute behind its key. -/
def readValue (cs : List Char) : Option (Expression × List Char) :=
  match skipBlanks false cs with
  | '=' :: '=' :: _ => none
  | '=' :: rest => readWholeExpression (skipBlanks false rest)
  | _ => none

/-- An attribute. -/
def readAttribute (cs : List Char) : Option (Structure × List Char) := do
  let (key, rest) ← readIdentifier cs
  let (value, rest) ← readValue rest
  return (.attribute key value, rest)

/-- Whether a body has an attribute with a key. -/
def hasAttribute (key : String) (body : Body) : Bool :=
  body.attributes.any fun entry => entry.1 = key

/-- Adds a part to the parts that follow it.  A body has each attribute only once. -/
def addStructure (part : Structure) (body : Body) : Option Body :=
  match part with
  | .attribute key _ => if hasAttribute key body then none else some (part :: body)
  | .block _ _ _ => some (part :: body)

mutual

/-- A body up to the end of the text, or up to a closing brace. -/
def readBody : (fuel : Nat) → List Char → Option (Body × List Char)
  | 0, _ => none
  | fuel + 1, cs =>
    match skipBlanks true cs with
    | [] => some ([], [])
    | '\x7d' :: rest => some ([], '\x7d' :: rest)
    | other => do
      let (part, rest) ← readStructure fuel other
      let rest ← skipToNextLine? rest
      let (body, rest) ← readBody fuel rest
      let body ← addStructure part body
      return (body, rest)

/-- An attribute or a block. -/
def readStructure : (fuel : Nat) → List Char → Option (Structure × List Char)
  | 0, _ => none
  | fuel + 1, cs => do
    let (name, rest) ← readIdentifier cs
    match skipBlanks false rest with
    | '=' :: _ => do
      let (value, rest) ← readValue rest
      return (.attribute name value, rest)
    | _ => do
      let (labels, rest) ← readLabels (rest.length + 1) rest
      let (body, rest) ← readBlockBody fuel rest
      return (.block name labels body, rest)

/-- The body of a block behind its opening brace, with the closing one.  It stands on lines of its
own, or it holds at most one attribute on the line of the braces. -/
def readBlockBody : (fuel : Nat) → List Char → Option (Body × List Char)
  | 0, _ => none
  | fuel + 1, cs =>
    match skipBlanks false cs with
    | '\x7d' :: rest => some ([], rest)
    | line =>
      match skipToNextLine? line with
      | some rest => do
        let (body, rest) ← readBody fuel rest
        let rest ← afterText? ['\x7d'] rest
        return (body, rest)
      | none => do
        let (part, rest) ← readAttribute line
        let rest ← afterText? ['\x7d'] (skipBlanks false rest)
        return ([part], rest)

end

/-- Reads a file. -/
def parse? (text : String) : Option Body :=
  let cs := text.toList
  match readBody (4 * cs.length + 8) cs with
  | some (body, []) => some body
  | _ => none

end InfraGraph.Hcl
