import Credential.Attribute.Basic
/-!
# Credential.Attribute.Codec — attribute trees as JSON

An attribute is written as an object tagged by its `type`, with `name`, `required` and its `schema`,
or, for a union, its `schemas`. A schema is written as the object of those of its parts that are
present.

Reading takes more than writing gives: unknown keys are passed over, `null` stands for an absent
part, an attribute may be the list of its fields in order behind the tag, and below the root a tag
may be the number of the type. Reading tells no reason for a refusal.
-/

namespace Credential

/-! ## Writing -/

/-- The member of a part that is present. -/
def Json.member? {α : Type} (key : String) (write : α → Json) : Option α → List (String × Json)
  | some value => [(key, write value)]
  | none => []

/-- The members of the parts that are present. -/
def Annotations.toMembers (notes : Annotations) : List (String × Json) :=
  Json.member? "title" .string notes.title ++
  Json.member? "description" .string notes.description ++
  Json.member? "default" id notes.default ++
  Json.member? "const" id notes.const ++
  Json.member? "examples" .array notes.examples

/-- The member of a list of allowed values. -/
def Json.allowedMember {α : Type} (write : α → Json) (allowed : Option (List α)) :
    List (String × Json) :=
  Json.member? "enum" (fun values => .array (values.map write)) allowed

mutual

/-- The members of a schema, without its tag. -/
def Schema.toMembers : Schema → List (String × Json)
  | .mk notes (.boolean allowed) => notes.toMembers ++ Json.allowedMember .bool allowed
  | .mk notes (.integer allowed) => notes.toMembers ++ Json.allowedMember .number allowed
  | .mk notes (.number allowed) =>
    notes.toMembers ++ Json.allowedMember (fun d => .number (.double d)) allowed
  | .mk notes (.string allowed format) =>
    notes.toMembers ++ Json.allowedMember .string allowed ++
      Json.member? "format" (fun f => .string (Format.name f)) format
  | .mk notes .null => notes.toMembers
  | .mk notes (.array none) => notes.toMembers
  | .mk notes (.array (some element)) => notes.toMembers ++ [("attribute", element.toJson)]
  | .mk notes (.object none required) =>
    notes.toMembers ++
      Json.member? "required" (fun names => .array (names.map .string)) required
  | .mk notes (.object (some children) required) =>
    notes.toMembers ++ [("attributes", .array (Attribute.toItems children))] ++
      Json.member? "required" (fun names => .array (names.map .string)) required
termination_by structural s => s

/-- The tagged object of an attribute. -/
def Attribute.toJson : Attribute → Json
  | .single name required schema =>
    .object [("type", .string schema.kind.tag), ("name", .string name),
      ("required", .bool required), ("schema", .object schema.toMembers)]
  | .multi name required candidates =>
    .object [("type", .string AttributeType.multi.tag), ("name", .string name),
      ("required", .bool required), ("schemas", .array (Schema.toItems candidates))]
termination_by structural a => a

/-- The objects of some attributes. -/
def Attribute.toItems : List Attribute → List Json
  | [] => []
  | a :: rest => a.toJson :: Attribute.toItems rest
termination_by structural as => as

/-- The tagged objects of the candidates of a union. -/
def Schema.toItems : List Schema → List Json
  | [] => []
  | s :: rest =>
    .object (("type", .string s.kind.tag) :: s.toMembers) :: Schema.toItems rest
termination_by structural ss => ss

end

/-- The tagged object of a schema. -/
def Schema.toJson (s : Schema) : Json := .object (("type", .string s.kind.tag) :: s.toMembers)

/-! ## Reading the parts -/

namespace Json

/-- An optional member: absent if missing or `null`, refused if it cannot be read. -/
def readOptional {α : Type} (read : Json → Option α) (key : String)
    (ms : List (String × Json)) : Option (Option α) :=
  match find? ms key with
  | none => some none
  | some .null => some none
  | some value => (read value).map some

/-- A mandatory member. -/
def readMember {α : Type} (read : Json → Option α) (key : String)
    (ms : List (String × Json)) : Option α :=
  (find? ms key).bind read

/-- An array all of whose items can be read. -/
def readItems {α : Type} (read : Json → Option α) : Json → Option (List α)
  | .array items => items.mapM read
  | _ => none

/-- A number as a double. -/
def readDouble : Json → Option Double
  | .number n => some n.toDouble
  | _ => none

end Json

/-- What a schema says about values of any type. -/
def Annotations.ofMembers? (ms : List (String × Json)) : Option Annotations := do
  let title ← Json.readOptional Json.text? "title" ms
  let description ← Json.readOptional Json.text? "description" ms
  let default ← Json.readOptional some "default" ms
  let const ← Json.readOptional some "const" ms
  let examples ← Json.readOptional Json.items? "examples" ms
  pure { title, description, default, const, examples }

/-- A format: its name, or an object that holds `null` under the name of a known one. -/
def Format.ofJson? : Json → Option Format
  | .string name => some (.ofName name)
  | .object [(name, .null)] =>
    match Format.ofName name with
    | .other _ => none
    | known => some known
  | _ => none

/-- The type of a tag: its word or, below the root, its number. -/
def Kind.ofJson? (nested : Bool) : Json → Option Kind
  | .string word => Kind.ofTag? word
  | .number (.integer i) => if nested && 0 ≤ i then Kind.all[i.toNat]? else none
  | _ => none

/-- The attribute type of a tag; the union counts after the seven types. -/
def AttributeType.ofJson? (nested : Bool) (tag : Json) : Option AttributeType :=
  match Kind.ofJson? nested tag with
  | some kind => some (.one kind)
  | none =>
    match tag with
    | .string "multi" => some .multi
    | .number (.integer 7) => if nested then some .multi else none
    | _ => none

/-- The schema of a type, from its members and what was read of the attributes inside it. Only the
parts that belong to the type are looked at. -/
def Schema.ofParts? (ms : List (String × Json)) (element : Option (Option Attribute))
    (children : Option (Option (List Attribute))) (kind : Kind) : Option Schema := do
  let notes ← Annotations.ofMembers? ms
  let shape ← match kind with
    | .boolean => (Json.readOptional (Json.readItems Json.bool?) "enum" ms).map Shape.boolean
    | .integer => (Json.readOptional (Json.readItems Json.number?) "enum" ms).map Shape.integer
    | .number => (Json.readOptional (Json.readItems Json.readDouble) "enum" ms).map Shape.number
    | .string => do
      let allowed ← Json.readOptional (Json.readItems Json.text?) "enum" ms
      let format ← Json.readOptional Format.ofJson? "format" ms
      pure (Shape.string allowed format)
    | .null => some Shape.null
    | .array => element.map Shape.array
    | .object => do
      let attributes ← children
      let required ← Json.readOptional (Json.readItems Json.text?) "required" ms
      pure (Shape.object attributes required)
  pure (.mk notes shape)

/-! ## Reading the tree -/

mutual

/-- An attribute, written as an object or as the list of its fields. -/
def Attribute.ofJson? (nested : Bool) : Json → Option Attribute
  | .object ms => do
    let type ← (Json.find? ms "type").bind (AttributeType.ofJson? nested)
    let name ← Json.readMember Json.text? "name" ms
    let required ← Json.readMember Json.bool? "required" ms
    match type with
    | .one kind => (Schema.inMembers? kind ms).map (.single name required)
    | .multi => (Schema.listIn? ms).map (.multi name required)
  | .array [tag, .string name, .bool required, content] => do
    match ← AttributeType.ofJson? nested tag with
    | .one kind => (Schema.ofFields? kind content).map (.single name required)
    | .multi => (Schema.listOf? content).map (.multi name required)
  | _ => none
termination_by structural j => j

/-- The schema under the key `schema`. -/
def Schema.inMembers? (kind : Kind) : List (String × Json) → Option Schema
  | [] => none
  | (k, v) :: rest =>
    if k == "schema" then Schema.ofFields? kind v else Schema.inMembers? kind rest
termination_by structural ms => ms

/-- The candidates under the key `schemas`. -/
def Schema.listIn? : List (String × Json) → Option (List Schema)
  | [] => none
  | (k, v) :: rest => if k == "schemas" then Schema.listOf? v else Schema.listIn? rest
termination_by structural ms => ms

/-- An array of tagged schemas. -/
def Schema.listOf? : Json → Option (List Schema)
  | .array items => Schema.allOf? items
  | _ => none
termination_by structural j => j

/-- Tagged schemas, all of which must be readable. -/
def Schema.allOf? : List Json → Option (List Schema)
  | [] => some []
  | item :: rest => do
    let first ← Schema.ofTagged? item
    let others ← Schema.allOf? rest
    pure (first :: others)
termination_by structural items => items

/-- A schema with its tag. -/
def Schema.ofTagged? : Json → Option Schema
  | .object ms => do
    let kind ← (Json.find? ms "type").bind (Kind.ofJson? true)
    Schema.ofParts? ms (Attribute.inMembers? ms) (Attribute.listIn? ms) kind
  | _ => none
termination_by structural j => j

/-- The schema of a known type. -/
def Schema.ofFields? (kind : Kind) : Json → Option Schema
  | .object ms => Schema.ofParts? ms (Attribute.inMembers? ms) (Attribute.listIn? ms) kind
  | _ => none
termination_by structural j => j

/-- The attribute under the key `attribute`, if there is one. -/
def Attribute.inMembers? : List (String × Json) → Option (Option Attribute)
  | [] => some none
  | (k, v) :: rest =>
    if k == "attribute" then
      match v with
      | .null => some none
      | v => (Attribute.ofJson? true v).map some
    else Attribute.inMembers? rest
termination_by structural ms => ms

/-- The attributes under the key `attributes`, if there are any. -/
def Attribute.listIn? : List (String × Json) → Option (Option (List Attribute))
  | [] => some none
  | (k, v) :: rest =>
    if k == "attributes" then
      match v with
      | .null => some none
      | .array items => (Attribute.allOf? items).map some
      | _ => none
    else Attribute.listIn? rest
termination_by structural ms => ms

/-- Attributes, all of which must be readable. -/
def Attribute.allOf? : List Json → Option (List Attribute)
  | [] => some []
  | item :: rest => do
    let first ← Attribute.ofJson? true item
    let others ← Attribute.allOf? rest
    pure (first :: others)
termination_by structural items => items

end

end Credential
