import InfraGraph.Hcl.Literal

/-!
# Text with interpolations

A template is text with code in it: interpolations `$\x7b…\x7d` and directives `%\x7b…\x7d`.  When a
template is written again the code keeps its spelling, only the strings in it are written in the
normal form.
-/

namespace InfraGraph.Hcl

/-- A piece of a template. -/
inductive Piece where
  /-- Text. -/
  | text (cs : List Char)
  /-- Text between the parts of a directive. -/
  | inner (cs : List Char)
  /-- An interpolation, or a part of a directive, as it is written. -/
  | code (cs : List Char)
  deriving DecidableEq, Repr

/-- Where a place in code lies. -/
inductive Context where
  /-- In code, below so many open braces. -/
  | code (braces : Nat)
  /-- In a string, behind a piece of text whose characters are given in reverse. -/
  | quoted (run : List Char)
  /-- In a comment that ends with its line. -/
  | lineComment
  /-- In a comment that ends with a star and a slash. -/
  | closedComment
  deriving DecidableEq, Repr

/-- The text of a run of characters whose last one comes first. -/
def flushRun (run : List Char) : List Char :=
  escapeText run.reverse

/-- Code with its strings in normal form.  The contexts around a place are given from the inside
out.  Every step shortens the text, which bounds `fuel`. -/
def respell : (fuel : Nat) → List Context → List Char → List Char
  | 0, _, cs => cs
  | _, _, [] => []
  | _, [], cs => cs
  | fuel + 1, .code braces :: outer, c :: rest =>
    match c, rest with
    | '"', _ => '"' :: respell fuel (.quoted [] :: .code braces :: outer) rest
    | '\x7b', _ => '\x7b' :: respell fuel (.code (braces + 1) :: outer) rest
    | '\x7d', _ =>
      if braces = 0 then '\x7d' :: respell fuel outer rest
      else '\x7d' :: respell fuel (.code (braces - 1) :: outer) rest
    | '#', _ => '#' :: respell fuel (.lineComment :: .code braces :: outer) rest
    | '/', '/' :: _ => '/' :: respell fuel (.lineComment :: .code braces :: outer) rest
    | '/', '*' :: more => '/' :: '*' :: respell fuel (.closedComment :: .code braces :: outer) more
    | _, _ => c :: respell fuel (.code braces :: outer) rest
  | fuel + 1, .quoted run :: outer, c :: rest =>
    match c, rest with
    | '"', _ => flushRun run ++ '"' :: respell fuel outer rest
    | '$', '$' :: '\x7b' :: more => respell fuel (.quoted ('\x7b' :: '$' :: run) :: outer) more
    | '%', '%' :: '\x7b' :: more => respell fuel (.quoted ('\x7b' :: '%' :: run) :: outer) more
    | '$', '\x7b' :: more =>
      flushRun run ++ '$' :: '\x7b' :: respell fuel (.code 0 :: .quoted [] :: outer) more
    | '%', '\x7b' :: more =>
      flushRun run ++ '%' :: '\x7b' :: respell fuel (.code 0 :: .quoted [] :: outer) more
    | '\\', _ =>
      match readEscape rest with
      | some (char, more) => respell fuel (.quoted (char :: run) :: outer) more
      | none => respell fuel (.quoted (c :: run) :: outer) rest
    | _, _ => respell fuel (.quoted (c :: run) :: outer) rest
  | fuel + 1, .lineComment :: outer, c :: rest =>
    if c = '\n' then c :: respell fuel outer rest
    else c :: respell fuel (.lineComment :: outer) rest
  | fuel + 1, .closedComment :: outer, c :: rest =>
    match c, rest with
    | '*', '/' :: more => '*' :: '/' :: respell fuel outer more
    | _, _ => c :: respell fuel (.closedComment :: outer) rest

namespace Piece

/-- A piece as it is written. -/
def written : Piece → List Char
  | text cs => guardMarkers cs
  | inner cs => guardMarkers cs
  | code (sigil :: brace :: cs) => sigil :: brace :: respell cs.length [.code 0] cs
  | code cs => cs

/-- The text of a template that has no code. -/
def plain? : List Piece → Option (List Char)
  | [] => some []
  | text cs :: rest => (plain? rest).map (cs ++ ·)
  | _ :: _ => none

end Piece

/-- A template as it is written. -/
def templateText (pieces : List Piece) : String :=
  String.ofList (pieces.flatMap Piece.written)

/-- The lines of a text without their ends.  There is no line behind a final line end. -/
def linesOf : List Char → List (List Char)
  | [] => []
  | '\n' :: rest => [] :: linesOf rest
  | ['\r', '\n'] => [[]]
  | '\r' :: '\n' :: rest => [] :: linesOf rest
  | c :: rest =>
    match rest, linesOf rest with
    | [], _ => [[c]]
    | _, [] => [[c]]
    | _, line :: more => (c :: line) :: more

/-- A blank at the start of a line. -/
def isIndentChar (c : Char) : Bool :=
  c.isWhitespace

/-- The smallest indentation of some lines.  Empty lines don't count. -/
def leastIndent (lines : List (List Char)) : Option Nat :=
  ((lines.filter (· ≠ [])).map fun line => (line.takeWhile isIndentChar).length).min?

/-- The indentation that all lines of a template share.  The text behind code goes on with a line,
so its first line doesn't count; neither does text inside directives. -/
def sharedIndent (first : Bool) : List Piece → Option Nat
  | [] => none
  | .text cs :: rest =>
    let lines := if first then linesOf cs else (linesOf cs).drop 1
    match leastIndent lines, sharedIndent false rest with
    | some m, some n => some (min m n)
    | some m, none => some m
    | none, n => n
  | _ :: rest => sharedIndent false rest

/-- The lines of a text with a number of characters left out at the start of each.  The first line
is left as it is unless `first` is set. -/
def dropIndent (count : Nat) (first : Bool) (cs : List Char) : List Char :=
  let lines := (linesOf cs).mapIdx fun i line => if i = 0 ∧ !first then line else line.drop count
  let joined := List.intercalate ['\n'] lines
  if cs.getLast? = some '\n' then joined ++ ['\n'] else joined

/-- A template without an indentation of its lines. -/
def dedent (count : Nat) (first : Bool) : List Piece → List Piece
  | [] => []
  | .text cs :: rest => .text (dropIndent count first cs) :: dedent count false rest
  | piece :: rest => piece :: dedent count false rest

end InfraGraph.Hcl
