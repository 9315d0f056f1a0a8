import Credential.Attribute.Basic
import Credential.Json.Pointer
import Credential.Json.Printer
/-!
# Credential.Validation.Rejection — what a keyword has against a value

A `Rejection` is raised by one keyword of a schema against one value. It knows the way from the
schema to the keyword and from the instance to the value, so that a rejection found further down is
told from further up by extending both (`Rejection.below`).
-/

namespace Credential.Validation

/-- What is wrong with a value. -/
inductive Problem where
  | alwaysFalse (found : Json)
  | wrongType (found : Json) (expected : Kind)
  | noneOfTypes (found : Json) (expected : List Kind)
  | notOneOf (found : Json) (allowed : Json)
  | notEqual (expected : Json)
  | missing (name : String)
  | unexpected (names : List String)
  | tooFewItems (found : Json) (limit : Nat)
  | tooManyItems (found : Json) (limit : Nat)
  | repeatedItems (found : Json)
  | tooFewProperties (found : Json) (limit : Nat)
  | tooManyProperties (found : Json) (limit : Nat)
  | tooShort (found : Json) (limit : Nat)
  | tooLong (found : Json) (limit : Nat)
  | belowMinimum (found : Json) (limit : Number)
  | aboveMaximum (found : Json) (limit : Number)
  | notAboveMinimum (found : Json) (limit : Number)
  | notBelowMaximum (found : Json) (limit : Number)
  | notMultiple (found : Json) (divisor : Number)
  | mismatch (found : Json) (pattern : String)
  | malformed (found : Json) (format : String)
  | noBranch (found : Json) (keyword : String)
  | severalBranches (found : Json) (keyword : String)
  | forbidden (found : Json) (schema : Json)
  deriving Inhabited

namespace Problem

/-- All types, in alphabetical order. -/
def kindsByName : List Kind := [.array, .boolean, .integer, .null, .number, .object, .string]

/-- A count with the name of what is counted. -/
def counted (n : Nat) (one many : String) : String :=
  Nat.repr n ++ " " ++ (if n = 1 then one else many)

/-- The text of a text in double quotes, as it is. -/
def inQuotes (text : String) : String := "\"" ++ text ++ "\""

/-- The problem as shown. -/
def message : Problem → String
  | .alwaysFalse found => "False schema does not allow " ++ found.compact
  | .wrongType found expected => found.compact ++ " is not of type " ++ inQuotes expected.tag
  | .noneOfTypes found expected =>
    found.compact ++ " is not of types "
      ++ ", ".intercalate ((kindsByName.filter expected.contains).map fun k => inQuotes k.tag)
  | .notOneOf found allowed => found.compact ++ " is not one of " ++ allowed.compact
  | .notEqual expected => expected.compact ++ " was expected"
  | .missing name => Json.quote name ++ " is a required property"
  | .unexpected names =>
    "Additional properties are not allowed (" ++ ", ".intercalate (names.map fun n => "'" ++ n ++ "'")
      ++ (if names.length = 1 then " was" else " were") ++ " unexpected)"
  | .tooFewItems found limit => found.compact ++ " has less than " ++ counted limit "item" "items"
  | .tooManyItems found limit => found.compact ++ " has more than " ++ counted limit "item" "items"
  | .repeatedItems found => found.compact ++ " has non-unique elements"
  | .tooFewProperties found limit =>
    found.compact ++ " has less than " ++ counted limit "property" "properties"
  | .tooManyProperties found limit =>
    found.compact ++ " has more than " ++ counted limit "property" "properties"
  | .tooShort found limit =>
    found.compact ++ " is shorter than " ++ counted limit "character" "characters"
  | .tooLong found limit =>
    found.compact ++ " is longer than " ++ counted limit "character" "characters"
  | .belowMinimum found limit => found.compact ++ " is less than the minimum of " ++ limit.text
  | .aboveMaximum found limit => found.compact ++ " is greater than the maximum of " ++ limit.text
  | .notAboveMinimum found limit =>
    found.compact ++ " is less than or equal to the minimum of " ++ limit.text
  | .notBelowMaximum found limit =>
    found.compact ++ " is greater than or equal to the maximum of " ++ limit.text
  | .notMultiple found divisor =>
    found.compact ++ " is not a multiple of " ++ divisor.toDouble.plainText
  | .mismatch found pattern => found.compact ++ " does not match " ++ inQuotes pattern
  | .malformed found format => found.compact ++ " is not a " ++ inQuotes format
  | .noBranch found keyword =>
    found.compact ++ " is not valid under any of the schemas listed in the '" ++ keyword
      ++ "' keyword"
  | .severalBranches found keyword =>
    found.compact ++ " is valid under more than one of the schemas listed in the '" ++ keyword
      ++ "' keyword"
  | .forbidden found schema => schema.compact ++ " is not allowed for " ++ found.compact

end Problem

/-- A keyword, a value it rejects and why. -/
structure Rejection where
  /-- The way from the schema to the keyword. -/
  keyword : Pointer
  /-- The way from the instance to the value. -/
  place : Pointer
  problem : Problem
  deriving Inhabited

namespace Rejection

/-- A rejection of the instance itself. -/
def here (keyword : List String) (problem : Problem) : Rejection := ⟨⟨keyword⟩, .root, problem⟩

/-- A rejection told from further up: some tokens above in the schema, some in the instance. -/
def below (keyword place : List String) (r : Rejection) : Rejection :=
  { r with keyword := ⟨keyword ++ r.keyword.tokens⟩, place := ⟨place ++ r.place.tokens⟩ }

end Rejection

end Credential.Validation
