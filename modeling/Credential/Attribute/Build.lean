import Credential.Attribute.Basic
import Credential.Json.Pointer
/-!
# Credential.Attribute.Build — attribute trees of schema documents

`Attribute.build` reads a schema document into an attribute tree.

* An object has one child for each member of `properties`, in order of declaration; a child is
  required when its name is listed in `required`.
* The `items` of an array describe its elements. An element takes the array's name and is
  required.
* `anyOf`, else `oneOf`, else a `type` with several tags makes a union. Unions inside unions are
  flattened into one list of candidates, and a candidate without title or description takes the
  one of the nearest union around it.
* A schema without `type`, `anyOf` and `oneOf` is untyped. Untyped properties, branches and items
  are skipped; an untyped root is an error.
-/

namespace Credential

/-! ## Errors -/

/-- How a schema is malformed. -/
inductive SchemaFlaw where
  | notAnObject (found : String)
  | typeNotTags
  | typeEntryNotString
  | unionNotArray
  deriving DecidableEq

/-- The wording of a flaw. -/
def SchemaFlaw.message : SchemaFlaw → String
  | .notAnObject found => "expected a schema object, found " ++ found
  | .typeNotTags => "type must be a string or an array of strings"
  | .typeEntryNotString => "type entries must be strings"
  | .unionNotArray => "union keyword must hold an array of schemas"

/-- Why a document has no attribute tree, and where. -/
inductive BuildError where
  | unsupportedType (place : Pointer) (tag : String)
  | missingType (place : Pointer)
  | invalidSchema (place : Pointer) (flaw : SchemaFlaw)
  deriving DecidableEq

/-- The error as shown. -/
def BuildError.message : BuildError → String
  | .unsupportedType place tag =>
    "unsupported attribute type '" ++ tag ++ "' at '" ++ place.text ++ "'"
  | .missingType place => "schema at '" ++ place.text ++ "' declares no type"
  | .invalidSchema place flaw => "invalid schema at '" ++ place.text ++ "': " ++ flaw.message

/-! ## The parts of one schema node -/

namespace Schema

/-- The keywords that give a schema node a type. -/
def typingKeywords : List String := ["type", "anyOf", "oneOf"]

/-- A schema object with none of the typing keywords. -/
def isUntyped : Json → Bool
  | .object ms => !typingKeywords.any (Json.declares ms)
  | _ => false

/-- The text of a member, if it is a string. -/
def textMember? (ms : List (String × Json)) (key : String) : Option String :=
  (Json.find? ms key).bind Json.text?

/-- The items of a member, if it is an array. -/
def itemsMember? (ms : List (String × Json)) (key : String) : Option (List Json) :=
  (Json.find? ms key).bind Json.items?

/-- What a schema node says about values of any type. -/
def annotationsOf (ms : List (String × Json)) : Annotations where
  title := textMember? ms "title"
  description := textMember? ms "description"
  default := Json.find? ms "default"
  const := Json.find? ms "const"
  examples := itemsMember? ms "examples"

/-- The allowed values that can be read as a type; the others are left out. -/
def allowedOf {α : Type} (ms : List (String × Json)) (read : Json → Option α) :
    Option (List α) :=
  (itemsMember? ms "enum").map (·.filterMap read)

/-- The names listed as required. -/
def requiredOf (ms : List (String × Json)) : Option (List String) :=
  (itemsMember? ms "required").map (·.filterMap Json.text?)

/-- A number without fractional part. -/
def integer? : Json → Option Number
  | .number n => if n.isIntegral then some n else none
  | _ => none

/-- A number as a double. -/
def double? : Json → Option Double
  | .number n => some n.toDouble
  | _ => none

/-- The schema of a node for one type tag, from the attributes of its elements and children. -/
def ofTag (place : Pointer) (ms : List (String × Json))
    (element : Except BuildError (Option Attribute))
    (children : Except BuildError (Option (List Attribute))) (tag : String) :
    Except BuildError Schema :=
  let notes := annotationsOf ms
  match Kind.ofTag? tag with
  | none => .error (.unsupportedType place tag)
  | some .boolean => .ok (.mk notes (.boolean (allowedOf ms Json.bool?)))
  | some .integer => .ok (.mk notes (.integer (allowedOf ms integer?)))
  | some .number => .ok (.mk notes (.number (allowedOf ms double?)))
  | some .string =>
    .ok (.mk notes
      (.string (allowedOf ms Json.text?) ((textMember? ms "format").map Format.ofName)))
  | some .null => .ok (.mk notes .null)
  | some .array => element.map fun e => .mk notes (.array e)
  | some .object => children.map fun cs => .mk notes (.object cs (requiredOf ms))

/-- The entries of a list of type tags. -/
def ofTags (place : Pointer) (schemaOf : String → Except BuildError Schema) :
    Nat → List Json → Except BuildError (List Schema)
  | _, [] => .ok []
  | i, tag :: rest =>
    match tag with
    | .string tag => do
      let schema ← schemaOf tag
      let schemas ← ofTags place schemaOf (i + 1) rest
      pure (schema :: schemas)
    | _ => .error (.invalidSchema ((place.push "type").pushIndex i) .typeEntryNotString)

/-- The schemas of a node without union keyword, one for each tag of its type. -/
def ofType (place : Pointer) (ms : List (String × Json))
    (element : Except BuildError (Option Attribute))
    (children : Except BuildError (Option (List Attribute))) : Except BuildError (List Schema) :=
  let schemaOf := ofTag place ms element children
  match Json.find? ms "type" with
  | none => .error (.missingType place)
  | some (.string tag) => (schemaOf tag).map fun schema => [schema]
  | some (.array []) => .error (.missingType place)
  | some (.array tags) => ofTags place schemaOf 0 tags
  | some _ => .error (.invalidSchema (place.push "type") .typeNotTags)

/-- Takes title and description from a union where the candidate has none. -/
def inherit (parent : Annotations) : Schema → Schema
  | .mk notes shape =>
    .mk { notes with
      title := notes.title.or parent.title
      description := notes.description.or parent.description } shape

/-! ## The tree -/

mutual

/-- The candidates of a schema node at a place: the schemas of which one governs a value. -/
def candidates (name : String) (place : Pointer) : Json → Except BuildError (List Schema)
  | .object ms =>
    match unionIn name place (annotationsOf ms) "anyOf" ms with
    | some result => result
    | none =>
      match unionIn name place (annotationsOf ms) "oneOf" ms with
      | some result => result
      | none =>
        ofType place ms (elementIn name place ms)
          (childrenIn place ((requiredOf ms).getD []) ms)
  | j => .error (.invalidSchema place (.notAnObject j.typeName))
termination_by structural j => j

/-- The candidates under a union keyword, if a member has it. -/
def unionIn (name : String) (place : Pointer) (notes : Annotations) (keyword : String) :
    List (String × Json) → Option (Except BuildError (List Schema))
  | [] => none
  | (k, v) :: rest =>
    if k == keyword then some (unionOf name (place.push keyword) notes v)
    else unionIn name place notes keyword rest
termination_by structural ms => ms

/-- The candidates of a list of branches. -/
def unionOf (name : String) (place : Pointer) (notes : Annotations) :
    Json → Except BuildError (List Schema)
  | .array branches =>
    match branchCandidates name place notes 0 branches with
    | .ok [] => .error (.missingType place)
    | result => result
  | _ => .error (.invalidSchema place .unionNotArray)
termination_by structural j => j

/-- The candidates of the branches from some index on. -/
def branchCandidates (name : String) (place : Pointer) (notes : Annotations) :
    Nat → List Json → Except BuildError (List Schema)
  | _, [] => .ok []
  | i, branch :: rest =>
    if isUntyped branch then branchCandidates name place notes (i + 1) rest
    else do
      let own ← candidates name (place.pushIndex i) branch
      let others ← branchCandidates name place notes (i + 1) rest
      pure (own.map (inherit notes) ++ others)
termination_by structural _ branches => branches

/-- The attribute of an array's elements, if its items are a typed schema object. -/
def elementIn (name : String) (place : Pointer) :
    List (String × Json) → Except BuildError (Option Attribute)
  | [] => .ok none
  | (k, v) :: rest =>
    if k == "items" then
      match v with
      | .object ms =>
        if isUntyped v then .ok none
        else
          (candidates name (place.push "items") (.object ms)).map fun schemas =>
            some (Attribute.ofCandidates name true schemas)
      | _ => .ok none
    else elementIn name place rest
termination_by structural ms => ms

/-- The attributes of an object's children, if its properties are an object. -/
def childrenIn (place : Pointer) (required : List String) :
    List (String × Json) → Except BuildError (Option (List Attribute))
  | [] => .ok none
  | (k, v) :: rest =>
    if k == "properties" then
      match v with
      | .object properties =>
        (childAttributes (place.push "properties") required properties).map some
      | _ => .ok none
    else childrenIn place required rest
termination_by structural ms => ms

/-- The attributes of the typed properties, in order of declaration. -/
def childAttributes (place : Pointer) (required : List String) :
    List (String × Json) → Except BuildError (List Attribute)
  | [] => .ok []
  | (key, child) :: rest =>
    if isUntyped child then childAttributes place required rest
    else do
      let schemas ← candidates key (place.push key) child
      let others ← childAttributes place required rest
      pure (Attribute.ofCandidates key (required.contains key) schemas :: others)
termination_by structural ms => ms

end

end Schema

namespace Attribute

/-- The attribute tree of a schema, for a position of some name. -/
def build (name : String) (required : Bool) (schema : Json) : Except BuildError Attribute :=
  (Schema.candidates name .root schema).map (ofCandidates name required)

/-- The name of the root. -/
def rootName : String := ""

/-- The attribute tree of a schema document. -/
def ofDocument (document : Json) : Except BuildError Attribute := build rootName true document

end Attribute

end Credential
