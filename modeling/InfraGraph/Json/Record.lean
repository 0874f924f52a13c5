import InfraGraph.Json.Number
import InfraGraph.Json.Reader
import InfraGraph.SortedMap

/-!
# Records as JSON

A record is an object with known members, or an array of its members in their order.  In an object
members that aren't known are passed over, and a known member may not come twice.  In an array
members at the end may be missing, as far as the record can do without them.
-/

namespace InfraGraph.Json

/-- The value of a string. -/
def string? : Json → Option String
  | .string value => value
  | _ => none

/-- A truth value. -/
def bool? : Json → Option Bool
  | .bool value => some value
  | _ => none

/-- The value of a number as a float. -/
def float? : Json → Option Float
  | .number literal => (readNumber literal).bind fun (parts, _) => parts.float?
  | _ => none

/-- The value of a natural number up to a limit. -/
def nat? (limit : Nat) : Json → Option Nat
  | .number literal => (readNumber literal).bind fun (parts, _) => parts.nat? limit
  | _ => none

/-- The elements of an array, each read by `read`. -/
def list? {α : Type} (read : Json → Option α) : Json → Option (List α)
  | .array elements => elements.mapM read
  | _ => none

/-- An object as a map from strings to strings.  The last value of a key counts. -/
def stringMap? : Json → Option (SortedMap String)
  | .object members =>
    (members.mapM fun (member : Option String × Json) =>
      member.1.bind fun key => member.2.string?.map fun value => (key, value)).map SortedMap.ofList
  | _ => none

/-- A value that may be null. -/
def nullable? {α : Type} (read : Json → Option α) : Json → Option (Option α)
  | .null => some none
  | j => (read j).map some

/-- The value of a member of an object: `none` if the member comes twice, `some none` if it doesn't
come at all. -/
def memberOnce? (name : String) (members : List (Option String × Json)) : Option (Option Json) :=
  match members.filter fun member => member.1 = some name with
  | [] => some none
  | [(_, value)] => some (some value)
  | _ => none

/-- The values of the members of a record, in the order of `names`.  A member that isn't there has
the value `none`. -/
def record? (names : List String) : Json → Option (List (Option Json))
  | .object members =>
    if members.all fun member => member.1.isSome then
      names.mapM fun name => memberOnce? name members
    else none
  | .array elements =>
    if elements.length ≤ names.length then
      some (elements.map some ++ List.replicate (names.length - elements.length) none)
    else none
  | _ => none

/-- A member that has to be there. -/
def required {α : Type} (read : Json → Option α) (member : Option Json) : Option α :=
  member.bind read

/-- A member that has a value of its own if it isn't there. -/
def withDefault {α : Type} (fallback : α) (read : Json → Option α) : Option Json → Option α
  | none => some fallback
  | some j => read j

end InfraGraph.Json
