import Credential.Json.Pointer
/-!
# Credential.Validation.Library — what judges by schemas

Schemas are compiled and values judged by a `Library`. What it makes of a schema is its own affair: a report
is put together from what it finds wrong with a value (`Finding`), whatever that is, and what a result
needs to know of a library is a hypothesis of the result. The one that the program runs with is
`Validation.engine`.
-/

namespace Credential.Validation

/-- Something wrong with a value. -/
structure Finding where
  /-- The way from the schema to the keyword, or to the schema `false`, that finds it; it goes through a
  reference where the keyword stands behind one. -/
  keyword : Pointer
  /-- The way from the instance to the value. -/
  place : Pointer
  message : String
  deriving DecidableEq, Inhabited

/-- What compiles schemas and judges values by them. -/
structure Library where
  /-- What is made of a schema. -/
  Compiled : Type
  /-- Compiles a schema. The error is the text of why it cannot be done. -/
  compile : Json → Except String Compiled
  /-- All that is wrong with a value. None if judging does not end. -/
  findings? : Compiled → Json → Option (List Finding)
  /-- Whether a value is accepted, without a list of what is wrong. None if judging does not end. -/
  accepts? : Compiled → Json → Option Bool

/-- A schema together with what a library makes of it. -/
structure Validator (L : Library) where
  schema : Json
  compiled : L.Compiled
  compiles : L.compile schema = .ok compiled

namespace Validator

variable {L : Library}

/-- Compiles a schema. -/
def compile (L : Library) (schema : Json) : Except String (Validator L) :=
  match h : L.compile schema with
  | .ok compiled => .ok ⟨schema, compiled, h⟩
  | .error fault => .error fault

/-- All that is wrong with a value. -/
def findings? (v : Validator L) (value : Json) : Option (List Finding) := L.findings? v.compiled value

/-- Whether a value is accepted. -/
def accepts (v : Validator L) (value : Json) : Bool := L.accepts? v.compiled value = some true

end Validator

end Credential.Validation
