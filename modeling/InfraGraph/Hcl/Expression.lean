import InfraGraph.Hcl.Number

/-!
# Expressions and bodies of configuration files

Expressions are kept as far as they are written again.  Nothing evaluates them, so a chain of
operators stays a chain, and a template stays the text that it was written as.
-/

namespace InfraGraph.Hcl

/-- An operator with one operand. -/
inductive UnaryOperator where
  | not
  | minus
  deriving DecidableEq, Repr

/-- An operator with two operands. -/
inductive BinaryOperator where
  | equal
  | notEqual
  | atMost
  | atLeast
  | less
  | greater
  | plus
  | minus
  | times
  | divide
  | remainder
  | and
  | or
  deriving DecidableEq, Repr

mutual

/-- An expression. -/
inductive Expression where
  | null
  | bool (value : Bool)
  | number (value : Number)
  | string (value : String)
  /-- A quoted text with interpolations or directives, as it stands between the quotes. -/
  | template (text : String)
  /-- A text between marks on lines of their own.  An indented one starts with `<<-`. -/
  | heredoc (indented : Bool) (mark text : String)
  | array (elements : List Expression)
  | object (items : List (Key × Expression))
  | variable (name : String)
  | traversal (operand : Expression) (steps : List Step)
  /-- A call of a function.  If `expand` is set the last argument stands for several. -/
  | call (function : String) (arguments : List Expression) (expand : Bool)
  | parentheses (inner : Expression)
  | unary (operator : UnaryOperator) (operand : Expression)
  /-- Operands with operators between them, in the order in which they are written. -/
  | chain (first : Expression) (rest : List (BinaryOperator × Expression))
  | conditional (condition yes no : Expression)
  /-- A list made from the elements of a collection. -/
  | listFor (names : List String) (collection value : Expression) (condition : List Expression)
  /-- An object made from the elements of a collection.  If `group` is set values with the same key
  are gathered. -/
  | objectFor (names : List String) (collection key value : Expression) (group : Bool)
      (condition : List Expression)

/-- A key of an object. -/
inductive Key where
  | name (name : String)
  | value (key : Expression)

/-- A step from a value to a part of it. -/
inductive Step where
  | attribute (name : String)
  | position (index : Nat)
  | dotSplat
  | splat
  | index (key : Expression)

end

instance : Inhabited Expression := ⟨.null⟩

/-- A part of a body. -/
inductive Structure where
  | attribute (key : String) (value : Expression)
  | block (type : String) (labels : List String) (body : List Structure)

/-- The contents of a file or a block. -/
abbrev Body : Type := List Structure

namespace Body

/-- The attributes of a body, in their order. -/
def attributes (body : Body) : List (String × Expression) :=
  body.filterMap fun
    | .attribute key value => some (key, value)
    | .block _ _ _ => none

end Body

/-- A block of a body. -/
structure Block where
  type : String
  labels : List String
  body : Body

/-- The blocks of a body, in their order. -/
def Body.blocks (body : Body) : List Block :=
  body.filterMap fun
    | .attribute _ _ => none
    | .block type labels inner => some ⟨type, labels, inner⟩

/-- The first attribute with a key. -/
def Block.attribute? (block : Block) (key : String) : Option Expression :=
  (block.body.attributes.find? fun entry => entry.1 = key).map (·.2)

end InfraGraph.Hcl
