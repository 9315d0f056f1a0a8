import Credential.Json.Number
/-!
# Credential.Json.Basic — JSON documents

Objects keep their members in the order of writing and hold each key once: a repeated key keeps
its first position and takes its last value (`Json.put`). Member look-up is by first match.
-/

namespace Credential

/-- A JSON document. -/
inductive Json where
  | null
  | bool (value : Bool)
  | number (value : Number)
  | string (value : String)
  | array (items : List Json)
  | object (members : List (String × Json))
  deriving Inhabited

namespace Json

/-! ## Members of an object -/

/-- The value of the first member of a name. -/
def find? (members : List (String × Json)) (key : String) : Option Json :=
  members.lookup key

/-- Whether some member has the name. -/
def declares (members : List (String × Json)) (key : String) : Bool :=
  members.any (·.1 == key)

/-- Sets a member: in place if the key is there, else at the end. -/
def put (key : String) (value : Json) : List (String × Json) → List (String × Json)
  | [] => [(key, value)]
  | (k, v) :: rest => if k = key then (k, value) :: rest else (k, v) :: put key value rest

/-- The object made by setting members one after the other. -/
def ofMembers (members : List (String × Json)) : Json :=
  .object (members.foldl (fun acc m => put m.1 m.2 acc) [])

/-- The member of a name, if the value is an object that has it. -/
def get? : Json → String → Option Json
  | .object ms, key => find? ms key
  | _, _ => none

/-! ## Reading a value as one type -/

/-- The members of an object. -/
def members? : Json → Option (List (String × Json))
  | .object ms => some ms
  | _ => none

/-- The items of an array. -/
def items? : Json → Option (List Json)
  | .array xs => some xs
  | _ => none

/-- The text of a string. -/
def text? : Json → Option String
  | .string s => some s
  | _ => none

/-- The truth value of a boolean. -/
def bool? : Json → Option Bool
  | .bool b => some b
  | _ => none

/-- The number of a number. -/
def number? : Json → Option Number
  | .number n => some n
  | _ => none

/-- Whether the value is `null`. -/
def isNull : Json → Bool
  | .null => true
  | _ => false

/-- The name of the value's type; a number is an `integer` if it is written as one. -/
def typeName : Json → String
  | .null => "null"
  | .bool _ => "boolean"
  | .number (.integer _) => "integer"
  | .number (.double _) => "number"
  | .string _ => "string"
  | .array _ => "array"
  | .object _ => "object"

/-- A string, or `null` for none. -/
def ofText? : Option String → Json
  | some s => .string s
  | none => .null

/-- A natural number. -/
def ofNat (n : Nat) : Json := .number (.integer n)

/-! ## Size and depth -/

mutual

/-- The number of values in a document, itself included. -/
def size : Json → Nat
  | .array xs => 1 + sizeItems xs
  | .object ms => 1 + sizeMembers ms
  | _ => 1
termination_by structural j => j

/-- The number of values in some documents. -/
def sizeItems : List Json → Nat
  | [] => 0
  | x :: xs => size x + sizeItems xs
termination_by structural xs => xs

/-- The number of values in some members. -/
def sizeMembers : List (String × Json) → Nat
  | [] => 0
  | (_, v) :: ms => size v + sizeMembers ms
termination_by structural ms => ms

end

mutual

/-- The number of containers on the longest way down. -/
def depth : Json → Nat
  | .array xs => 1 + depthItems xs
  | .object ms => 1 + depthMembers ms
  | _ => 0
termination_by structural j => j

/-- The greatest depth of some documents. -/
def depthItems : List Json → Nat
  | [] => 0
  | x :: xs => max (depth x) (depthItems xs)
termination_by structural xs => xs

/-- The greatest depth of some members. -/
def depthMembers : List (String × Json) → Nat
  | [] => 0
  | (_, v) :: ms => max (depth v) (depthMembers ms)
termination_by structural ms => ms

end

end Json

end Credential
