/-!
# JSON values

A value keeps what its text says: the members of an object stay in their order and may come twice,
and a number stays the text that it was written as until someone asks for its value.
-/

namespace InfraGraph

/-- A JSON value. -/
inductive Json where
  | null
  | bool (value : Bool)
  /-- A number, as its characters. -/
  | number (literal : List Char)
  /-- A string.  A string with half of a surrogate pair is well-formed JSON, but has no value. -/
  | string (value : Option String)
  | array (elements : List Json)
  /-- An object.  Its keys are strings, so they may lack a value as well. -/
  | object (members : List (Option String × Json))
  deriving Inhabited

namespace Json

/-- The JSON string with a value. -/
def ofString (s : String) : Json :=
  .string (some s)

/-- The JSON number of a natural number. -/
def ofNat (n : Nat) : Json :=
  .number (Nat.toDigits 10 n)

/-- The JSON object with given members. -/
def ofMembers (members : List (String × Json)) : Json :=
  .object (members.map fun member => (some member.1, member.2))

end Json

end InfraGraph
