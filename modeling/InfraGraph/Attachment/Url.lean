import InfraGraph.Text.Identifier
import InfraGraph.Text.Quoted

/-!
# Addresses as URLs

Only what an address of a store needs is kept of a URL: its scheme, whether it has a host, and its
path.  Text that is no URL is refused, with the reason that the URL standard has for it.
-/

namespace InfraGraph

/-- A URL, as far as an address of a store needs it. -/
structure Url where
  scheme : String
  hasHost : Bool
  path : String
  deriving DecidableEq, Repr

namespace Url

/-- Why a text is no URL. -/
inductive Fault where
  | noScheme
  | emptyHost
  | invalidPort
  | invalidIpv6
  | invalidIpv4
  | invalidHostCharacter
  | invalidDomain
  deriving DecidableEq, Repr

/-- The wording of a fault. -/
def Fault.message : Fault → String
  | noScheme => "relative URL without a base"
  | emptyHost => "empty host"
  | invalidPort => "invalid port number"
  | invalidIpv6 => "invalid IPv6 address"
  | invalidIpv4 => "invalid IPv4 address"
  | invalidHostCharacter => "invalid domain character"
  | invalidDomain => "invalid international domain name"

/-- A text without the blanks and control characters at its ends, and without tabs and line ends
anywhere. -/
def trimmed (cs : List Char) : List Char :=
  let blank (c : Char) : Bool := c.toNat ≤ 32
  let inner := ((cs.dropWhile blank).reverse.dropWhile blank).reverse
  inner.filter fun c => c ≠ '\t' ∧ c ≠ '\n' ∧ c ≠ '\r'

/-- A character of a scheme behind the first one. -/
def isSchemeChar (c : Char) : Bool :=
  Text.isAsciiLetter c || Text.isAsciiDigit c || c = '+' || c = '-' || c = '.'

/-- The scheme at the start of a text, in lower case, and what follows its colon. -/
def readScheme (cs : List Char) : Option (String × List Char) :=
  match cs with
  | first :: _ =>
    if Text.isAsciiLetter first then
      match cs.dropWhile isSchemeChar with
      | ':' :: rest => some (String.ofList ((cs.takeWhile isSchemeChar).map Char.toLower), rest)
      | _ => none
    else none
  | [] => none

/-- The schemes whose URLs always have a host. -/
def specialSchemes : List String := ["http", "https", "ws", "wss", "ftp"]

/-- Whether a backslash separates parts as a slash does. -/
def isSeparator (special : Bool) (c : Char) : Bool :=
  c = '/' || (special && c = '\\')

/-- Whether a character ends the part of a URL that names a user and a host. -/
def endsAuthority (special : Bool) (c : Char) : Bool :=
  isSeparator special c || c = '?' || c = '#'

/-- Splits at the last `@`. -/
def splitUser (cs : List Char) : Option (List Char × List Char) :=
  match cs.reverse.dropWhile (· ≠ '@') with
  | [] => none
  | _ :: user => some (user.reverse, (cs.reverse.takeWhile (· ≠ '@')).reverse)

/-- Whether the text before `@` names a user or has a password. -/
def namesUser (user : List Char) : Bool :=
  user ≠ [] && user ≠ [':']

/-- The characters of a host, up to the colon behind it.  A colon between square brackets is
part of the host. -/
def readHost (inside : Bool) : List Char → List Char × List Char
  | [] => ([], [])
  | c :: rest =>
    if c = ':' ∧ !inside then ([], c :: rest)
    else
      let inside := if c = '[' then true else if c = ']' then false else inside
      let (host, after) := readHost inside rest
      (c :: host, after)

/-- Whether a text is a number of sixteen bits, which may be left out. -/
def isPort (cs : List Char) : Bool :=
  cs.all Text.isAsciiDigit && cs.foldl (fun n c => 10 * n + (c.toNat - 48)) 0 ≤ 65535

/-- The value of a hexadecimal digit. -/
def hexValue? (c : Char) : Option Nat :=
  if Text.isAsciiDigit c then some (c.toNat - 48)
  else if 'a' ≤ c ∧ c ≤ 'f' then some (c.toNat - 87)
  else if 'A' ≤ c ∧ c ≤ 'F' then some (c.toNat - 55)
  else none

/-- The pieces of a text between separators, empty ones included. -/
def splitAt (separator : Char) : List Char → List (List Char)
  | [] => [[]]
  | c :: rest =>
    match splitAt separator rest with
    | [] => [[c]]
    | piece :: more => if c = separator then [] :: piece :: more else (c :: piece) :: more

/-- Whether a text is an IPv4 address of four decimal parts without leading zeros. -/
def isDottedQuad (cs : List Char) : Bool :=
  let parts := splitAt '.' cs
  parts.length = 4 && parts.all fun part =>
    part ≠ [] && part.all Text.isAsciiDigit && part.length ≤ 3 &&
      (part.length = 1 || part.head? ≠ some '0') &&
      part.foldl (fun n c => 10 * n + (c.toNat - 48)) 0 ≤ 255

/-- Counts the pieces of sixteen bits that the parts of an IPv6 address stand for.  Only the last
part of the whole address may be an IPv4 address, which stands for two pieces. -/
def countPieces (last : Bool) : List (List Char) → Option Nat
  | [] => some 0
  | [part] =>
    if part ≠ [] ∧ part.length ≤ 4 ∧ part.all (fun c => (hexValue? c).isSome) then some 1
    else if last ∧ isDottedQuad part then some 2
    else none
  | part :: rest =>
    if part ≠ [] ∧ part.length ≤ 4 ∧ part.all (fun c => (hexValue? c).isSome) then
      (countPieces last rest).map (· + 1)
    else none

/-- The two sides of the first pair of colons. -/
def splitColons : List Char → Option (List Char × List Char)
  | ':' :: ':' :: rest => some ([], rest)
  | c :: rest => (splitColons rest).map fun (before, after) => (c :: before, after)
  | [] => none

/-- The parts between single colons.  No text has no parts. -/
def colonParts (cs : List Char) : List (List Char) :=
  if cs = [] then [] else splitAt ':' cs

/-- Whether a text is an IPv6 address. -/
def isIpv6 (cs : List Char) : Bool :=
  match splitColons cs with
  | none => countPieces true (colonParts cs) = some 8
  | some (before, after) =>
    match countPieces false (colonParts before), countPieces true (colonParts after) with
    | some m, some n => m + n ≤ 7
    | _, _ => false

/-- Characters that no host contains. -/
def isForbiddenInHost (c : Char) : Bool :=
  c.toNat = 0 || "\t\n\r #/:<>?@[\\]^|".toList.contains c

/-- Replaces escapes of a percent sign and two hexadecimal digits by their values, one character for
each byte. -/
def percentDecoded : List Char → List Char
  | '%' :: a :: b :: rest =>
    match hexValue? a, hexValue? b with
    | some high, some low => Char.ofNat (16 * high + low) :: percentDecoded rest
    | _, _ => '%' :: percentDecoded (a :: b :: rest)
  | c :: rest => c :: percentDecoded rest
  | [] => []

/-- The value of a part of an IPv4 address, which is decimal, octal or hexadecimal. -/
def ipv4Part? (part : List Char) : Option Nat :=
  let digits (base : Nat) (cs : List Char) : Option Nat :=
    cs.foldl (fun n c => n.bind fun n => (hexValue? c).bind fun d =>
      if d < base then some (base * n + d) else none) (some 0)
  match part with
  | [] => none
  | '0' :: 'x' :: rest => digits 16 rest
  | '0' :: 'X' :: rest => digits 16 rest
  | '0' :: rest => digits 8 rest
  | other => digits 10 other

/-- The labels of a domain, without the empty one behind a final dot. -/
def domainLabels (domain : List Char) : List (List Char) :=
  let labels := splitAt '.' domain
  if labels.getLast? = some [] ∧ 1 < labels.length then labels.dropLast else labels

/-- Whether the last label of a domain is a number, so that the whole is an IPv4 address. -/
def endsInNumber (domain : List Char) : Bool :=
  match (domainLabels domain).getLast? with
  | some label =>
    (label ≠ [] && label.all Text.isAsciiDigit) ||
      ((label.take 2 = ['0', 'x'] || label.take 2 = ['0', 'X']) && (ipv4Part? label).isSome)
  | none => false

/-- Whether a domain is an IPv4 address. -/
def isIpv4 (domain : List Char) : Bool :=
  match (domainLabels domain).mapM ipv4Part? with
  | none => false
  | some parts =>
    parts.length ≤ 4 && parts.dropLast.all (· ≤ 255) &&
      parts.getLastD 0 < Nat.pow 256 (5 - parts.length)

/-- Checks the host of a URL. -/
def checkHost (special : Bool) (host : List Char) : Except Fault Unit :=
  match host with
  | '[' :: inner =>
    if inner.getLast? = some ']' ∧ isIpv6 inner.dropLast then .ok () else .error .invalidIpv6
  | _ =>
    if !special then
      if host.any isForbiddenInHost then .error .invalidHostCharacter else .ok ()
    else
      let domain := percentDecoded host
      if domain.any fun c => isForbiddenInHost c || c = '%' || c.toNat ≤ 32 || c.toNat = 127 then
        .error .invalidDomain
      else if domain = [] then .error .emptyHost
      else if endsInNumber domain ∧ !isIpv4 domain then .error .invalidIpv4
      else .ok ()

/-- Checks the part of a URL between the two slashes and the path, and says whether it names a
host.  A lone `@` may only stand at the very end of the URL. -/
def checkAuthority (special atEnd : Bool) (cs : List Char) : Except Fault Bool := do
  let (user, rest) := (splitUser cs).getD ([], cs)
  let (host, behind) := readHost false rest
  if (special ∧ host = []) ∨ (cs = ['@'] ∧ !atEnd) then .error .emptyHost
  else
    checkHost special host
    if host = [] ∧ behind ≠ [] then .error .emptyHost
    else if !isPort ((behind.drop 1).takeWhile (· ≠ '\\')) then .error .invalidPort
    else if host = [] ∧ namesUser user then .error .emptyHost
    else .ok (host ≠ [])

/-- An escape of a percent sign and two upper case hexadecimal digits. -/
def percentEncoded (b : UInt8) : List Char :=
  ['%', (Text.hexDigit (b.toNat / 16)).toUpper, (Text.hexDigit (b.toNat % 16)).toUpper]

/-- Characters that the path of a URL with slashes has to escape. -/
def isEscapedInPath (c : Char) : Bool :=
  c.toNat < 32 || 126 < c.toNat || [' ', '"', '<', '>', '`', '#', '?', '\x7b', '\x7d'].contains c

/-- Characters that the path of a URL without slashes has to escape. -/
def isEscapedInOpaquePath (c : Char) : Bool :=
  c.toNat < 32 || 126 < c.toNat

/-- Text whose characters are escaped where they have to be. -/
def escaped (mustEscape : Char → Bool) (cs : List Char) : List Char :=
  cs.flatMap fun c =>
    if mustEscape c then (String.singleton c).toUTF8.toList.flatMap percentEncoded else [c]

/-- A segment of a path in lower case with escaped dots as dots. -/
def plainDots : List Char → List Char
  | '%' :: '2' :: e :: rest =>
    if e = 'e' ∨ e = 'E' then '.' :: plainDots rest else '%' :: '2' :: plainDots (e :: rest)
  | c :: rest => c :: plainDots rest
  | [] => []

/-- Whether a segment names a drive, as in `c:`.  Such a segment is never left by `..`. -/
def isDrive : List Char → Bool
  | [letter, mark] => Text.isAsciiLetter letter && (mark = ':' || mark = '|')
  | _ => false

/-- Leaves the last of the kept segments. -/
def leave : List (List Char) → List (List Char)
  | [] => []
  | top :: under => if isDrive top then top :: under else under

/-- Follows `.` and `..` in the segments of a path.  `kept` holds the segments so far, the last one
first. -/
def normalSegments : (kept : List (List Char)) → List (List Char) → List (List Char)
  | kept, [] => kept.reverse
  | kept, [last] =>
    if plainDots last = ['.', '.'] then ([] :: leave kept).reverse
    else if plainDots last = ['.'] then ([] :: kept).reverse
    else (last :: kept).reverse
  | kept, segment :: rest =>
    if plainDots segment = ['.', '.'] then normalSegments (leave kept) rest
    else if plainDots segment = ['.'] then normalSegments kept rest
    else normalSegments (segment :: kept) rest

/-- The path of a URL, given the text behind its first slash. -/
def normalPath (special : Bool) (cs : List Char) : List Char :=
  let slashes := cs.map fun c => if isSeparator special c then '/' else c
  (normalSegments [] (splitAt '/' (escaped isEscapedInPath slashes))).flatMap fun segment =>
    '/' :: segment

/-- The path at the start of a text, which ends before a query or a fragment. -/
def readPath (special : Bool) (cs : List Char) : List Char :=
  match cs.takeWhile fun c => c ≠ '?' ∧ c ≠ '#' with
  | [] => if special then ['/'] else []
  | c :: rest => normalPath special (if isSeparator special c then rest else c :: rest)

/-- Reads what follows two slashes. -/
def readAuthority (scheme : String) (special : Bool) (cs : List Char) : Except Fault Url := do
  let ends := fun c => !endsAuthority special c
  let behind := cs.dropWhile ends
  let hasHost ← checkAuthority special behind.isEmpty (cs.takeWhile ends)
  return ⟨scheme, hasHost, String.ofList (readPath special behind)⟩

/-- Reads a URL of a file, whose host may be empty. -/
def readFile (cs : List Char) : Except Fault Url := do
  match cs with
  | a :: b :: rest =>
    if isSeparator true a ∧ isSeparator true b then
      let ends := fun c => !endsAuthority true c
      let host := rest.takeWhile ends
      unless host = [] do checkHost true host
      return ⟨"file", host ≠ [], String.ofList (readPath true (rest.dropWhile ends))⟩
    else return ⟨"file", false, String.ofList (readPath true cs)⟩
  | _ => return ⟨"file", false, String.ofList (readPath true cs)⟩

/-- Reads a URL. -/
def parse (text : String) : Except Fault Url :=
  match readScheme (trimmed text.toList) with
  | none => .error .noScheme
  | some (scheme, rest) =>
    if scheme = "file" then readFile rest
    else if specialSchemes.contains scheme then
      readAuthority scheme true (rest.dropWhile (isSeparator true))
    else
      match rest with
      | '/' :: '/' :: more => readAuthority scheme false more
      | '/' :: _ => .ok ⟨scheme, false, String.ofList (readPath false rest)⟩
      | _ =>
        let opaquePath := rest.takeWhile fun c => c ≠ '?' ∧ c ≠ '#'
        .ok ⟨scheme, false, String.ofList (escaped isEscapedInOpaquePath opaquePath)⟩

end Url

end InfraGraph
