import Credential.Value.Basic
import Credential.Attribute.Codec
/-!
# Credential.Value.Codec — value trees as JSON

A value is written like its attribute, with the content as a further field `value`: `null` when
absent, a list of value trees for arrays and objects. A present `null` is written like an absent
one, so reading takes it for absent.
-/

namespace Credential

/-! ## Writing -/

mutual

/-- The tagged object of a value. -/
def Value.toTree : Value → Json
  | .mk name required schema content =>
    .object [("type", .string schema.kind.tag), ("name", .string name),
      ("required", .bool required), ("schema", .object schema.toMembers),
      ("value", content.toTree)]
termination_by structural v => v

/-- The content of a value. -/
def Content.toTree : Content → Json
  | .absent => .null
  | .boolean b => .bool b
  | .number n => .number n
  | .string s => .string s
  | .null => .null
  | .array elements => .array (Value.toTrees elements)
  | .object children => .array (Value.toTrees children)
termination_by structural c => c

/-- The tagged objects of some values. -/
def Value.toTrees : List Value → List Json
  | [] => []
  | v :: rest => v.toTree :: Value.toTrees rest
termination_by structural vs => vs

end

/-! ## Reading -/

/-- The content of a type without parts. An empty object is a way to write a present `null`. -/
def Content.ofTree? : Kind → Json → Option Content
  | _, .null => some .absent
  | .boolean, .bool b => some (.boolean b)
  | .integer, .number n => some (.number n)
  | .number, .number n => some (.number n)
  | .string, .string s => some (.string s)
  | .null, .object [] => some .null
  | _, _ => none

mutual

/-- A value, written as an object or as the list of its fields. -/
def Value.ofTree? (nested : Bool) : Json → Option Value
  | .object ms => do
    let kind ← (Json.find? ms "type").bind (Kind.ofJson? nested)
    let name ← Json.readMember Json.text? "name" ms
    let required ← Json.readMember Json.bool? "required" ms
    let schema ← Schema.inMembers? kind ms
    let content ← Value.contentIn? kind ms
    pure (.mk name required schema content)
  | .array [tag, .string name, .bool required, schema, content] => do
    let kind ← Kind.ofJson? nested tag
    let schema ← Schema.ofFields? kind schema
    let content ← Value.contentOf? kind content
    pure (.mk name required schema content)
  | _ => none
termination_by structural j => j

/-- The content under the key `value`; absent without it. -/
def Value.contentIn? (kind : Kind) : List (String × Json) → Option Content
  | [] => some .absent
  | (k, v) :: rest =>
    if k == "value" then Value.contentOf? kind v else Value.contentIn? kind rest
termination_by structural ms => ms

/-- The content of a type. -/
def Value.contentOf? (kind : Kind) : Json → Option Content
  | .array items =>
    match kind with
    | .array => (Value.allOf? items).map .array
    | .object => (Value.allOf? items).map .object
    | _ => none
  | j => Content.ofTree? kind j
termination_by structural j => j

/-- Values, all of which must be readable. -/
def Value.allOf? : List Json → Option (List Value)
  | [] => some []
  | item :: rest => do
    let first ← Value.ofTree? true item
    let others ← Value.allOf? rest
    pure (first :: others)
termination_by structural items => items

end

end Credential
