import Credential.Validation.Evaluation
import Credential.Validation.Metaschema
import Credential.Validation.Payload
/-!
# Credential.Validation.Engine — the library that the program runs with

A schema is fit for judging if its edition is known, the schema of schemas accepts it, and every
reference and pattern that judging can reach makes sense. `Fit.of` checks this once; definitions that
nothing refers to are not looked at beyond the schema of schemas.

`engine` knows two editions, and of their keywords those listed in `Keyword.judge` and
`Keyword.problem?`; other keywords say nothing to it. Results on reports are on any library.
-/

namespace Credential.Validation

/-- Why a schema is not fit for judging. -/
inductive SchemaFault where
  | unknownDraft (address : String)
  /-- The schema of schemas rejects a part of it. -/
  | unfit (problem : Problem)
  | danglingPointer (pointer : String)
  | danglingAnchor (anchor : String)
  | foreignReference (reference : String)
  | badPattern (pattern : String)

/-- The fault as shown. -/
def SchemaFault.message : SchemaFault → String
  | .unknownDraft address => "Unknown specification: " ++ address
  | .unfit problem => problem.message
  | .danglingPointer pointer => "Pointer '" ++ pointer ++ "' does not exist"
  | .danglingAnchor anchor => "Anchor '" ++ anchor ++ "' does not exist"
  | .foreignReference reference => "Resource '" ++ reference ++ "' is not present in a registry"
  | .badPattern pattern => (Problem.malformed (.string pattern) "regex").message

namespace SchemaFault

/-- The fault of a reference without target. -/
def ofReference (reference : String) : SchemaFault :=
  match reference.toList with
  | '#' :: '/' :: rest => .danglingPointer ("/" ++ String.ofList rest)
  | '#' :: rest => .danglingAnchor (String.ofList rest)
  | _ => .foreignReference reference

end SchemaFault

/-- The schemas inside an operand of a keyword that judging asks. -/
def innerSchemas (members : List (String × Json)) (keyword : String) (operand : Json) : List Json :=
  let listed : List Json :=
    match operand with
    | .object schemas => schemas.map (·.2)
    | _ => []
  match keyword with
  | "properties" => if Keyword.coversProperties members then [] else listed
  | "additionalProperties" =>
    let covered := if Keyword.coversProperties members then
        ((Keyword.propertySchemas members).getD []).map (·.2) else []
    covered ++ [operand]
  | "items" =>
    match operand with
    | .array schemas => schemas
    | _ => [operand]
  | "allOf" => Keyword.branches operand
  | "anyOf" => Keyword.branches operand
  | "oneOf" => Keyword.branches operand
  | "not" => [operand]
  | _ => []

/-- Goes through all that judging by a schema can reach, and stops at the first reference or pattern
that makes no sense. The state is the list of references already followed. -/
def followReferences (root : Json) :
    Nat → Draft → List String → Json → Except SchemaFault (List String)
  | 0, _, followed, _ => .ok followed
  | steps + 1, draft, followed, schema =>
    match schema with
    | .object members =>
      let draft := draft.inside schema
      (Keyword.active draft members).foldlM (fun followed (keyword, operand) =>
        match keyword, operand with
        | "$ref", .string reference =>
          if followed.contains reference then .ok followed
          else
            match Reference.target? root reference with
            | some target =>
              followReferences root steps (Draft.newest.inside root) (reference :: followed) target
            | none => .error (.ofReference reference)
        | "pattern", .string pattern =>
          if (Pattern.parse? pattern).isSome then .ok followed else .error (.badPattern pattern)
        | keyword, operand =>
          (innerSchemas members keyword operand).foldlM (followReferences root steps draft) followed)
        followed
    | _ => .ok followed

/-- A schema that is fit for judging. -/
structure Fit where
  schema : Json
  draft : Draft

namespace Fit

/-- Checks that a schema is fit for judging. -/
def of (schema : Json) : Except SchemaFault Fit := do
  let draft ← (Draft.named .newest schema).mapError .unknownDraft
  match judgeRoot draft (Metaschema.of draft) schema with
  | some (rejection :: _) => .error (.unfit rejection.problem)
  | _ =>
    discard (followReferences schema (stepsEnough schema .null) draft [] schema)
    pure ⟨schema, draft⟩

/-- What the schema has against a value. -/
def judge (fit : Fit) (value : Json) : Verdict := judgeRoot fit.draft fit.schema value

end Fit

/-- A rejection as a library tells it. -/
def Rejection.finding (r : Rejection) : Finding := ⟨r.keyword, r.place, r.problem.message⟩

/-- The library that the program runs with. -/
abbrev engine : Library where
  Compiled := Fit
  compile schema := (Fit.of schema).mapError SchemaFault.message
  findings? fit value := (fit.judge value).map fun found => found.map Rejection.finding
  accepts? fit value := (fit.judge value).accepts?

/-- Compiles a schema and checks a payload with it. -/
def checkPayload (schema payload : Json) : Except PayloadError Unit := engine.check schema payload

end Credential.Validation
