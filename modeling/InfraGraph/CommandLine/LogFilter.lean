import InfraGraph.Text.Identifier
import InfraGraph.Text.Natural

/-!
# What is reported

How much a run reports is given by a level.  A filter refines that for parts of the program: it is a
list of directives between commas, and each of them names a part, a span with fields in square
brackets, a level, or several of these.  Only whether a filter is well-formed matters for a run.
-/

namespace InfraGraph.CommandLine

/-- How much is reported, from the least to the most. -/
inductive LogLevel where
  | error
  | warn
  | info
  | debug
  | trace
  deriving DecidableEq, Repr

namespace LogLevel

/-- All levels, from the least to the most. -/
def all : List LogLevel := [error, warn, info, debug, trace]

/-- The name of a level. -/
def name : LogLevel → String
  | error => "error"
  | warn => "warn"
  | info => "info"
  | debug => "debug"
  | trace => "trace"

/-- The level with a name, in whatever case, or with a number from one up. -/
def ofText? (text : String) : Option LogLevel :=
  match Text.natural? 0xFFFFFFFFFFFFFFFF text with
  | some 0 => none
  | some (n + 1) => all[n]?
  | none => all.find? fun level => level.name = text.toLower

end LogLevel

namespace LogFilter

/-- Whether a text can follow the equals sign of a directive: a level, its number, nothing at all,
or what switches reports off. -/
def isLevel (text : List Char) : Bool :=
  let text := String.ofList text
  text = "" || text.toLower = "off" || Text.natural? 0 text = some 0 ||
    (LogLevel.ofText? text).isSome

/-- Whether a directive can go on like this behind its span. -/
def endsAfterSpan : List Char → Bool
  | [] => true
  | '=' :: level => isLevel level
  | _ => false

/-- Whether a directive can go on like this in a field, of which something was read or not. -/
def endsInField : (started : Bool) → List Char → Bool
  | _, [] => false
  | started, '\x7d' :: ']' :: rest => started && endsAfterSpan rest
  | _, '\x7d' :: _ => false
  | _, _ :: rest => endsInField true rest

/-- Whether a directive can go on like this in its span. -/
def endsInSpan : List Char → Bool
  | [] => false
  | ']' :: rest => endsAfterSpan rest
  | '\x7b' :: rest => endsInField false rest
  | _ :: rest => endsInSpan rest

/-- Whether a directive can go on like this in the name of a part. -/
def endsInName : List Char → Bool
  | [] => true
  | '=' :: level => isLevel level
  | '[' :: rest => endsInSpan rest
  | _ :: rest => endsInName rest

/-- Whether a text is a directive. -/
def isDirective : List Char → Bool
  | [] => false
  | '[' :: rest => endsInSpan rest
  | c :: rest => (c = ':' || Text.isIdentifierRest c) && endsInName rest

/-- The characters that may surround a directive. -/
def isBlank (c : Char) : Bool :=
  c.isWhitespace || c = '\x0b' || c = '\x0c'

/-- A text without blanks around it. -/
def trimmed (text : List Char) : List Char :=
  ((text.dropWhile isBlank).reverse.dropWhile isBlank).reverse

/-- The pieces of a text between commas. -/
def pieces : List Char → List (List Char)
  | [] => [[]]
  | ',' :: rest => [] :: pieces rest
  | c :: rest =>
    match pieces rest with
    | [] => [[c]]
    | piece :: more => (c :: piece) :: more

/-- Whether a text is a filter.  Nothing needs to stand between two commas. -/
def isValid (text : String) : Bool :=
  (pieces text.toList).all fun piece => piece = [] || isDirective (trimmed piece)

end LogFilter

end InfraGraph.CommandLine
