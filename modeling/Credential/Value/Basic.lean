import Credential.Attribute.Basic
/-!
# Credential.Value.Basic — value trees

A `Value` is one attribute paired with what a document holds at its position: a name, whether a
value was required, the schema that governs it, and the content, which may be absent.
`Value.toJson?` gives back the plain JSON.
-/

namespace Credential

mutual

/-- One attribute with its content. -/
inductive Value where
  | mk (name : String) (required : Bool) (schema : Schema) (content : Content)

/-- What stands at a position. -/
inductive Content where
  | absent
  | boolean (value : Bool)
  | number (value : Number)
  | string (value : String)
  | null
  | array (elements : List Value)
  | object (children : List Value)

end

instance : Inhabited Content := ⟨.absent⟩
instance : Inhabited Value := ⟨.mk default default default default⟩

/-- Whether there is a content. -/
def Content.isPresent : Content → Bool
  | .absent => false
  | _ => true

namespace Value

/-- The key of the value in its object. -/
def name : Value → String
  | .mk name _ _ _ => name

/-- Whether a value was required. -/
def required : Value → Bool
  | .mk _ required _ _ => required

/-- The schema that governs the value; never a union. -/
def schema : Value → Schema
  | .mk _ _ schema _ => schema

/-- What stands at the position. -/
def content : Value → Content
  | .mk _ _ _ content => content

/-- Whether there is a content. -/
def isPresent (v : Value) : Bool := v.content.isPresent

/-- The elements of an array or the children of an object. -/
def parts (v : Value) : List Value :=
  match v.content with
  | .array elements => elements
  | .object children => children
  | _ => []

/-- The child of an object by name; of several the first. -/
def child? (v : Value) (name : String) : Option Value :=
  match v.content with
  | .object children => children.find? (·.name == name)
  | _ => none

/-- The value reached by following names down from object to object. -/
def descend? (v : Value) : List String → Option Value
  | [] => some v
  | name :: names => (v.child? name).bind (descend? · names)

end Value

/-! ## Plain JSON -/

mutual

/-- The JSON of a value, if it is present. An absent child leaves no member, an absent element
leaves `null`. -/
def Value.toJson? : Value → Option Json
  | .mk _ _ _ .absent => none
  | .mk _ _ _ (.boolean b) => some (.bool b)
  | .mk _ _ _ (.number n) => some (.number n)
  | .mk _ _ _ (.string s) => some (.string s)
  | .mk _ _ _ .null => some .null
  | .mk _ _ _ (.array elements) => some (.array (Value.toItems elements))
  | .mk _ _ _ (.object children) => some (Json.ofMembers (Value.toMembers children))
termination_by structural v => v

/-- The items of an array of values. -/
def Value.toItems : List Value → List Json
  | [] => []
  | v :: rest => (v.toJson?).getD .null :: Value.toItems rest
termination_by structural vs => vs

/-- The members of the values that are present. -/
def Value.toMembers : List Value → List (String × Json)
  | [] => []
  | v :: rest =>
    match v.toJson? with
    | some j => (v.name, j) :: Value.toMembers rest
    | none => Value.toMembers rest
termination_by structural vs => vs

end

/-! ## Walks -/

mutual

/-- A value and all below it, each before its parts. -/
def Value.walk : Value → List Value
  | .mk name required schema (.array elements) =>
    .mk name required schema (.array elements) :: Value.walkAll elements
  | .mk name required schema (.object children) =>
    .mk name required schema (.object children) :: Value.walkAll children
  | v => [v]
termination_by structural v => v

/-- The walks of some values, one after the other. -/
def Value.walkAll : List Value → List Value
  | [] => []
  | v :: rest => v.walk ++ Value.walkAll rest
termination_by structural vs => vs

end

end Credential
