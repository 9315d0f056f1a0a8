import Credential.Json.Equality
import Credential.Validation.Draft
import Credential.Validation.Reference
import Credential.Validation.Rejection
import Credential.Validation.StringFormat
/-!
# Credential.Validation.Evaluation — values judged by a schema

`judge` lists what the keywords of a schema have against a value. Keywords speak in order of writing,
the members of `properties` in order of the schema, items in order of their index; a keyword that is
not known says nothing.

Two rules tie keywords together. Where `additionalProperties` is `false` or a schema, it speaks for
`properties` as well, member by member in order of the value. And `anyOf` and `oneOf` tell only that
they fail, not what their branches have to say.

A schema may refer to itself, so judging need not end. `judge` is given a bound on the steps from schema
to schema and has no verdict beyond it; a bound that suffices for every evaluation that ends is
`stepsEnough`.
-/

namespace Credential.Validation

/-- What a schema has against a value: nothing if it accepts it. No verdict if judging does not end. -/
abbrev Verdict := Option (List Rejection)

namespace Verdict

/-- The verdict of a schema that accepts. -/
def accept : Verdict := some []

/-- The verdicts on some parts together. -/
def gather (parts : List α) (verdict : α → Verdict) : Verdict :=
  (parts.mapM verdict).map List.flatten

/-- A verdict told from further up. -/
def below (keyword place : List String) (v : Verdict) : Verdict :=
  v.map fun rejections => rejections.map (Rejection.below keyword place)

/-- The verdict of a keyword that has at most one problem with the value itself. -/
def ofProblem? (keyword : String) (problem : Option Problem) : Verdict :=
  some (problem.toList.map (Rejection.here [keyword]))

/-- Whether a verdict accepts. -/
def accepts? (v : Verdict) : Option Bool := v.map List.isEmpty

end Verdict

/-! ## Keywords without schemas inside -/

namespace Keyword

/-- The types listed by `type`. -/
def kinds : Json → List Kind
  | .string tag => (Kind.ofTag? tag).toList
  | .array items => items.filterMap fun item => item.text?.bind Kind.ofTag?
  | _ => []

/-- The problem of a value that is of none of some types. -/
def typeProblem? (expected : List Kind) (value : Json) : Option Problem :=
  if expected.any (·.accepts value) then none
  else
    match expected with
    | [] => none
    | [kind] => some (.wrongType value kind)
    | kinds => some (.noneOfTypes value kinds)

/-- A problem with a count on one side of a limit. -/
def limited? (limit : Option Nat) (count : Option Nat) (fails : Nat → Nat → Bool)
    (problem : Nat → Problem) : Option Problem :=
  match limit, count with
  | some limit, some count => if fails count limit then some (problem limit) else none
  | _, _ => none

/-- A problem with a number on one side of a limit. -/
def bounded? (operand value : Json) (fails : Number → Number → Bool)
    (problem : Number → Problem) : Option Problem :=
  match operand, value with
  | .number limit, .number n => if fails n limit then some (problem limit) else none
  | _, _ => none

/-- The least difference from one that a double can tell. -/
def epsilon : Nat × Nat := (1, Nat.pow 2 52)

/-- Whether a number is a multiple of another one, both taken as doubles. With an integral divisor
the remainder has to be zero; so it has if the quotient is too large for a double. Otherwise the
fraction of the quotient has to be below the least difference from one, which the fraction of a
negative quotient always is. -/
def isMultiple (value divisor : Number) : Bool :=
  let x := value.toDouble
  let y := divisor.toDouble
  let quotient := x.div y
  if y.isIntegral || !quotient.isFinite then
    x.numerator * y.denominator % (y.numerator * x.denominator) = 0
  else
    quotient.isNegative
      || quotient.numerator % quotient.denominator * epsilon.2 < epsilon.1 * quotient.denominator

/-- The number of items of an array. -/
def itemCount? (value : Json) : Option Nat := value.items?.map List.length

/-- The number of members of an object. -/
def memberCount? (value : Json) : Option Nat := value.members?.map List.length

/-- The number of characters of a string. -/
def characterCount? (value : Json) : Option Nat := value.text?.map String.length

/-- The names listed by `required` that an object lacks. -/
def missingNames (operand value : Json) : List String :=
  match operand, value with
  | .array names, .object members =>
    (names.filterMap Json.text?).filter fun name => !Json.declares members name
  | _, _ => []

/-- The problem that a keyword without schemas inside has with a value. -/
def problem? (draft : Draft) (keyword : String) (operand value : Json) : Option Problem :=
  let limit := operand.number?.bind Number.toNat?
  match keyword with
  | "type" => typeProblem? (kinds operand) value
  | "enum" =>
    match operand with
    | .array allowed => if allowed.any (value.agrees ·) then none else some (.notOneOf value operand)
    | _ => none
  | "const" => if value.agrees operand then none else some (.notEqual operand)
  | "minItems" => limited? limit (itemCount? value) (· < ·) (.tooFewItems value)
  | "maxItems" => limited? limit (itemCount? value) (· > ·) (.tooManyItems value)
  | "minProperties" => limited? limit (memberCount? value) (· < ·) (.tooFewProperties value)
  | "maxProperties" => limited? limit (memberCount? value) (· > ·) (.tooManyProperties value)
  | "minLength" => limited? limit (characterCount? value) (· < ·) (.tooShort value)
  | "maxLength" => limited? limit (characterCount? value) (· > ·) (.tooLong value)
  | "minimum" => bounded? operand value (fun n l => n.lt l) (.belowMinimum value)
  | "maximum" => bounded? operand value (fun n l => l.lt n) (.aboveMaximum value)
  | "exclusiveMinimum" => bounded? operand value (fun n l => !l.lt n) (.notAboveMinimum value)
  | "exclusiveMaximum" => bounded? operand value (fun n l => !n.lt l) (.notBelowMaximum value)
  | "multipleOf" => bounded? operand value (fun n d => !isMultiple n d) (.notMultiple value)
  | "uniqueItems" =>
    match operand, value with
    | .bool true, .array items => if Json.distinct items then none else some (.repeatedItems value)
    | _, _ => none
  | "pattern" =>
    match operand, value with
    | .string text, .string s =>
      if (Pattern.parse? text).all (·.matchesIn s) then none else some (.mismatch value text)
    | _, _ => none
  | "format" =>
    match operand, value with
    | .string name, .string s =>
      if draft.assertsFormat && !(StringFormat.test? name).all (· s) then some (.malformed value name)
      else none
    | _, _ => none
  | _ => none

/-- Whether `additionalProperties` speaks for `properties` as well. -/
def coversProperties (members : List (String × Json)) : Bool :=
  match Json.find? members "additionalProperties" with
  | some (.bool allowed) => !allowed
  | some (.object _) => true
  | _ => false

/-- The schemas under `properties`. -/
def propertySchemas (members : List (String × Json)) : Option (List (String × Json)) :=
  (Json.find? members "properties").bind Json.members?

/-- The keywords that count: all of them, or the reference alone if it stands alone. -/
def active (draft : Draft) (members : List (String × Json)) : List (String × Json) :=
  if draft.referenceStandsAlone && Json.declares members "$ref" then
    members.filter (·.1 == "$ref")
  else members

/-- Whether some branch accepts, asking one after the other until one does. -/
def someAccepts? (verdict : Json → Verdict) : List Json → Option Bool
  | [] => some false
  | branch :: rest => do
    if ← (verdict branch).accepts? then pure true else someAccepts? verdict rest

/-- Whether none, one or several branches accept, asking until a second one does. -/
def acceptCount? (verdict : Json → Verdict) : List Json → Option Nat
  | [] => some 0
  | branch :: rest => do
    if ← (verdict branch).accepts? then
      pure (if ← someAccepts? verdict rest then 2 else 1)
    else acceptCount? verdict rest

/-! ## Keywords with schemas inside -/

/-- `properties` on its own: the schemas of the members that the value has. -/
def properties (inner : Json → Json → Verdict) (schemas members : List (String × Json)) : Verdict :=
  Verdict.gather schemas fun (name, schema) =>
    match Json.find? members name with
    | some value => (inner schema value).below ["properties", name] [name]
    | none => .accept

/-- The members of a value that `properties` has a schema for, and how all others are judged. -/
def eachMember (inner : Json → Json → Verdict) (schemas members : List (String × Json))
    (other : String → Json → Verdict) : Verdict :=
  Verdict.gather members fun (name, value) =>
    match Json.find? schemas name with
    | some schema => (inner schema value).below ["properties", name] [name]
    | none => other name value

/-- `additionalProperties` where it is `false`: with `properties`, all unexpected names at once after
what the expected members are charged with; without, the first member. -/
def closed (inner : Json → Json → Verdict) (schemas : Option (List (String × Json)))
    (members : List (String × Json)) : Verdict :=
  match schemas, members with
  | none, [] => .accept
  | none, (_, value) :: _ => some [.here ["additionalProperties"] (.alwaysFalse value)]
  | some schemas, members =>
    let names := (members.map (·.1)).filter fun name => !Json.declares schemas name
    (eachMember inner schemas members fun _ _ => .accept).map fun found =>
      found ++ if names.isEmpty then [] else [.here ["additionalProperties"] (.unexpected names)]

/-- The branches of a union or conjunction. -/
def branches (operand : Json) : List Json := operand.items?.getD []

/-- What one keyword has against a value; `inner` judges by a schema inside, `referred` by the target
of a reference. -/
def judge (inner : Json → Json → Verdict) (referred : String → Json → Verdict) (draft : Draft)
    (members : List (String × Json)) (keyword : String) (operand value : Json) : Verdict :=
  match keyword with
  | "$ref" =>
    match operand with
    | .string reference => (referred reference value).below ["$ref"] []
    | _ => .accept
  | "required" =>
    some ((missingNames operand value).map fun name => .here ["required"] (.missing name))
  | "properties" =>
    match operand, value with
    | .object schemas, .object found =>
      if coversProperties members then .accept else properties inner schemas found
    | _, _ => .accept
  | "additionalProperties" =>
    match operand, value with
    | .bool false, .object found => closed inner (propertySchemas members) found
    | .object _, .object found =>
      eachMember inner ((propertySchemas members).getD []) found fun name value =>
        (inner operand value).below ["additionalProperties"] [name]
    | _, _ => .accept
  | "items" =>
    match operand, value with
    | .array schemas, .array items =>
      Verdict.gather (schemas.zip items).zipIdx fun ((schema, item), i) =>
        (inner schema item).below ["items", Nat.repr i] [Nat.repr i]
    | _, .array items =>
      Verdict.gather items.zipIdx fun (item, i) => (inner operand item).below ["items"] [Nat.repr i]
    | _, _ => .accept
  | "allOf" =>
    Verdict.gather (branches operand).zipIdx fun (branch, i) =>
      (inner branch value).below ["allOf", Nat.repr i] []
  | "anyOf" => do
    if ← someAccepts? (inner · value) (branches operand) then Verdict.accept
    else some [.here ["anyOf"] (.noBranch value "anyOf")]
  | "oneOf" => do
    match ← acceptCount? (inner · value) (branches operand) with
    | 0 => some [.here ["oneOf"] (.noBranch value "oneOf")]
    | 1 => Verdict.accept
    | _ => some [.here ["oneOf"] (.severalBranches value "oneOf")]
  | "not" => do
    if ← (inner operand value).accepts? then some [.here ["not"] (.forbidden value operand)]
    else Verdict.accept
  | _ => .ofProblem? keyword (problem? draft keyword operand value)

end Keyword

/-! ## Schemas -/

/-- What a schema inside a root schema has against a value, in a bounded number of steps from schema
to schema. The target of a reference is read by the edition of the root. -/
def judge (root : Json) : Nat → Draft → Json → Json → Verdict
  | 0, _, _, _ => none
  | steps + 1, draft, schema, value =>
    match schema with
    | .bool true => .accept
    | .bool false => some [.here [] (.alwaysFalse value)]
    | .object members =>
      let draft := draft.inside schema
      let referred (reference : String) (value : Json) : Verdict :=
        match Reference.target? root reference with
        | some target => judge root steps (Draft.newest.inside root) target value
        | none => .accept
      Verdict.gather (Keyword.active draft members) fun (keyword, operand) =>
        Keyword.judge (judge root steps draft) referred draft members keyword operand value
    | _ => .accept

/-- A number of steps after which an evaluation that has not ended goes round in a circle: there are
no more pairs of a schema and an edition on one value, nor values on the way down. -/
def stepsEnough (root value : Json) : Nat := 2 * (root.size + 1) * (value.depth + 1)

/-- What a root schema has against a value. -/
def judgeRoot (draft : Draft) (root value : Json) : Verdict :=
  judge root (stepsEnough root value) draft root value

end Credential.Validation
