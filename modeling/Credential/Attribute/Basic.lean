import Credential.Json.Basic
/-!
# Credential.Attribute.Basic — attribute trees

An `Attribute` is one named position of a credential: a property of an object, an element of an
array, or the root. A `Schema` says what may stand there: one of the seven types of JSON with
what the type needs. An attribute has either one schema or, for a union, several candidates of
which the first that accepts a value governs it.
-/

namespace Credential

/-! ## Types -/

/-- The seven types of JSON Schema. -/
inductive Kind where
  | boolean
  | integer
  | number
  | string
  | null
  | array
  | object
  deriving DecidableEq, Inhabited

namespace Kind

/-- The word for a type. -/
def tag : Kind → String
  | .boolean => "boolean"
  | .integer => "integer"
  | .number => "number"
  | .string => "string"
  | .null => "null"
  | .array => "array"
  | .object => "object"

/-- All types, in the order in which tags are numbered. -/
def all : List Kind := [.boolean, .integer, .number, .string, .null, .array, .object]

/-- The type a word stands for. -/
def ofTag? (word : String) : Option Kind := all.find? (·.tag == word)

/-- Whether a value is of a type. A number without fractional part is an integer. -/
def accepts : Kind → Json → Bool
  | .boolean, .bool _ => true
  | .integer, .number n => n.isIntegral
  | .number, .number _ => true
  | .string, .string _ => true
  | .null, .null => true
  | .array, .array _ => true
  | .object, .object _ => true
  | _, _ => false

end Kind

/-- The format of a string. -/
inductive Format where
  | date
  | dateTime
  | time
  /-- Any other name, kept as written. -/
  | other (name : String)
  deriving DecidableEq, Inhabited

namespace Format

/-- The format of a name. -/
def ofName (name : String) : Format :=
  if name = "date" then .date
  else if name = "date-time" then .dateTime
  else if name = "time" then .time
  else .other name

/-- The name of a format. -/
def name : Format → String
  | .date => "date"
  | .dateTime => "date-time"
  | .time => "time"
  | .other name => name

end Format

/-- What a schema of any type may say about its value. -/
structure Annotations where
  title : Option String
  description : Option String
  default : Option Json
  const : Option Json
  examples : Option (List Json)
  deriving Inhabited

/-- A schema that says nothing. -/
def Annotations.none : Annotations := ⟨.none, .none, .none, .none, .none⟩

/-! ## Schemas and attributes -/

mutual

/-- What may stand at one position. -/
inductive Schema where
  | mk (notes : Annotations) (shape : Shape)

/-- A type with what belongs to it. -/
inductive Shape where
  | boolean (allowed : Option (List Bool))
  | integer (allowed : Option (List Number))
  | number (allowed : Option (List Double))
  | string (allowed : Option (List String)) (format : Option Format)
  | null
  /-- Every element follows the one attribute, if the array describes its elements. -/
  | array (element : Option Attribute)
  /-- The described properties in order of declaration, and the names listed as required. -/
  | object (children : Option (List Attribute)) (required : Option (List String))

/-- One named position. -/
inductive Attribute where
  | single (name : String) (required : Bool) (schema : Schema)
  | multi (name : String) (required : Bool) (candidates : List Schema)

end

instance : Inhabited Shape := ⟨.null⟩
instance : Inhabited Schema := ⟨.mk default default⟩
instance : Inhabited Attribute := ⟨.single default default default⟩

/-- The type of a shape. -/
def Shape.kind : Shape → Kind
  | .boolean _ => .boolean
  | .integer _ => .integer
  | .number _ => .number
  | .string _ _ => .string
  | .null => .null
  | .array _ => .array
  | .object _ _ => .object

namespace Schema

/-- What the schema says about its value. -/
def notes : Schema → Annotations
  | .mk notes _ => notes

/-- The type with what belongs to it. -/
def shape : Schema → Shape
  | .mk _ shape => shape

/-- The type of the values described. -/
def kind (s : Schema) : Kind := s.shape.kind

/-- Whether a value is of the schema's type. -/
def accepts (s : Schema) (value : Json) : Bool := s.kind.accepts value

/-- The shape of a type about which nothing more is said. -/
def bareShape : Kind → Shape
  | .boolean => .boolean none
  | .integer => .integer none
  | .number => .number none
  | .string => .string none none
  | .null => .null
  | .array => .array none
  | .object => .object none none

/-- The schema that names a type and nothing else. -/
def bare (kind : Kind) : Schema := .mk .none (bareShape kind)

end Schema

/-- The type of an attribute: that of its schema, or a union. -/
inductive AttributeType where
  | one (kind : Kind)
  | multi
  deriving DecidableEq

namespace AttributeType

/-- The word for an attribute's type. -/
def tag : AttributeType → String
  | .one kind => kind.tag
  | .multi => "multi"

/-- The attribute type a word stands for. -/
def ofTag? (word : String) : Option AttributeType :=
  if word = "multi" then some .multi else (Kind.ofTag? word).map .one

end AttributeType

namespace Attribute

/-- The key of the attribute in its object. -/
def name : Attribute → String
  | .single name _ _ => name
  | .multi name _ _ => name

/-- Whether a value must be present. -/
def required : Attribute → Bool
  | .single _ required _ => required
  | .multi _ required _ => required

/-- The schemas of which one governs the value. -/
def candidates : Attribute → List Schema
  | .single _ _ schema => [schema]
  | .multi _ _ candidates => candidates

/-- The type of the attribute. -/
def type : Attribute → AttributeType
  | .single _ _ schema => .one schema.kind
  | .multi _ _ _ => .multi

/-- The attribute of some candidates: a single candidate makes no union. -/
def ofCandidates (name : String) (required : Bool) : List Schema → Attribute
  | [schema] => .single name required schema
  | schemas => .multi name required schemas

/-- What a form shows for the attribute: the first title among its candidates, else its name. -/
def label (a : Attribute) : String :=
  (a.candidates.findSome? (·.notes.title)).getD a.name

/-- The described properties of an object attribute, in order of declaration. -/
def children : Attribute → List Attribute
  | .single _ _ (.mk _ (.object (some children) _)) => children
  | _ => []

/-- Whether the attribute is of type object. -/
def isObject (a : Attribute) : Bool := a.type = .one .object

/-- The first child of a name. -/
def child? (a : Attribute) (name : String) : Option Attribute :=
  a.children.find? (·.name == name)

/-- Attributes in the order of display: objects after all others, otherwise as declared. -/
def displayOrder (attributes : List Attribute) : List Attribute :=
  attributes.filter (!·.isObject) ++ attributes.filter (·.isObject)

end Attribute

/-! ## Walks -/

mutual

/-- An attribute and all below it, each before what it contains: the element of an array, the
children of an object, the candidates of a union. A candidate counts as an attribute with the name
and flag of the union. -/
def Attribute.walk : Attribute → List Attribute
  | .single name required schema => .single name required schema :: schema.inside
  | .multi name required candidates =>
    .multi name required candidates :: Schema.walkAll name required candidates
termination_by structural a => a

/-- All attributes inside a schema. -/
def Schema.inside : Schema → List Attribute
  | .mk _ (.array (some element)) => element.walk
  | .mk _ (.object (some children) _) => Attribute.walkAll children
  | _ => []
termination_by structural s => s

/-- The walks of some attributes, one after the other. -/
def Attribute.walkAll : List Attribute → List Attribute
  | [] => []
  | a :: rest => a.walk ++ Attribute.walkAll rest
termination_by structural as => as

/-- The walks of the candidates of a union. -/
def Schema.walkAll (name : String) (required : Bool) : List Schema → List Attribute
  | [] => []
  | s :: rest => .single name required s :: s.inside ++ Schema.walkAll name required rest
termination_by structural ss => ss

end

end Credential
