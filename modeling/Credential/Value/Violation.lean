import Credential.Attribute.Basic
import Credential.Issue.Basic
import Credential.Json.Pointer
/-!
# Credential.Value.Violation — how data can fail its attribute tree

A violation names its place in the data: a required value is missing, or a value is of none of
the types expected there.
-/

namespace Credential

/-- One defect of some data. -/
inductive Violation where
  | missing (place : Pointer)
  | mismatch (place : Pointer) (expected : List Kind) (found : String)
  /-- A union without candidates has nothing to stand for an absent value. -/
  | emptyUnion (place : Pointer)
  deriving DecidableEq

namespace Violation

/-- Where the data is defective. -/
def place : Violation → Pointer
  | .missing place => place
  | .mismatch place _ _ => place
  | .emptyUnion place => place

/-- The types expected, as a text. -/
def expectedText (expected : List Kind) : String := " | ".intercalate (expected.map Kind.tag)

/-- What is wrong, without the place. -/
def reason : Violation → String
  | .missing _ => "missing required value"
  | .mismatch _ expected found => "expected " ++ expectedText expected ++ ", found " ++ found
  | .emptyUnion _ => "expected a union candidate, found an empty union"

/-- What is wrong, with the place. -/
def message : Violation → String
  | .missing place => "missing required value at '" ++ place.text ++ "'"
  | .mismatch place expected found =>
    "expected " ++ expectedText expected ++ " at '" ++ place.text ++ "', found " ++ found
  | .emptyUnion place =>
    "expected a union candidate at '" ++ place.text ++ "', found an empty union"

/-- The violation as an issue of a report. -/
def issue (v : Violation) : Issue := .plain v.place.text v.reason

/-- The message of a list of violations, one a line. -/
def messages (violations : List Violation) : String :=
  "\n".intercalate (violations.map message)

end Violation

end Credential
