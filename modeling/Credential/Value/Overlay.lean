import Credential.Value.Basic
import Credential.Value.Violation
/-!
# Credential.Value.Overlay — laying data over an attribute tree

`Attribute.overlay` pairs every attribute with the value found at its position.

* An absent value of an optional attribute leaves the position empty; so does `null`, unless the
  type is `null` or the attribute is a union with a candidate of type `null`.
* An absent value of a required attribute is a violation, and so is a value of the wrong type.
* A union stands for its first candidate whose type accepts the value, and for its first candidate
  if the value is absent.
* Members without attribute are passed over. Elements of an array that does not describe them are
  typed by what they are.

All violations are reported, in document order: a position that is itself defective hides what
lies below it, nothing hides its neighbours.
-/

namespace Credential

/-! ## One position -/

/-- What is known of the value at a position before its type is checked. -/
inductive Presence where
  | missing
  | absent
  | present (value : Json)

/-- Whether a value counts as present for a type. `null` is a value of type `null`; elsewhere it
is as good as no value where none is required. -/
def Presence.of (kind : Kind) (required : Bool) : Option Json → Presence
  | none => if required then .missing else .absent
  | some .null => if kind ≠ .null ∧ !required then .absent else .present .null
  | some value => .present value

/-- The content of a value of a type without parts. -/
def Content.ofScalar? : Kind → Json → Option Content
  | .boolean, .bool b => some (.boolean b)
  | .integer, .number n => if n.isIntegral then some (.number n) else none
  | .number, .number n => some (.number n)
  | .string, .string s => some (.string s)
  | .null, .null => some .null
  | _, _ => none

/-! ## Values nothing describes -/

mutual

/-- A value typed by what it is. -/
def Value.infer (name : String) (required : Bool) : Json → Value
  | .null => .mk name required (.bare .null) .null
  | .bool b => .mk name required (.bare .boolean) (.boolean b)
  | .number n =>
    .mk name required (.bare (if n.isIntegral then .integer else .number)) (.number n)
  | .string s => .mk name required (.bare .string) (.string s)
  | .array items => .mk name required (.bare .array) (.array (Value.inferItems name items))
  | .object ms => .mk name required (.bare .object) (.object (Value.inferMembers ms))
termination_by structural j => j

/-- The elements of an array, each under the name of the array. -/
def Value.inferItems (name : String) : List Json → List Value
  | [] => []
  | item :: rest => Value.infer name true item :: Value.inferItems name rest
termination_by structural items => items

/-- The members of an object, each optional. -/
def Value.inferMembers : List (String × Json) → List Value
  | [] => []
  | (key, value) :: rest => Value.infer key false value :: Value.inferMembers rest
termination_by structural ms => ms

end

/-! ## The walk -/

/-- The values if all succeed, else all violations. -/
def collect : List (Except (List Violation) Value) → Except (List Violation) (List Value)
  | [] => .ok []
  | first :: rest =>
    match first, collect rest with
    | .ok value, .ok values => .ok (value :: values)
    | .ok _, .error violations => .error violations
    | .error violations, .ok _ => .error violations
    | .error before, .error after => .error (before ++ after)

mutual

/-- Lays the value at a place, if there is one, over an attribute. -/
def Attribute.overlayAt : Attribute → Pointer → Option Json → Except (List Violation) Value
  | .single name required schema, place, data => schema.overlayAt name required place data
  | .multi name required candidates, place, data =>
    let acceptsNull := candidates.any (·.kind == .null)
    match data.filter fun value => acceptsNull || required || !value.isNull with
    | some value =>
      match Schema.overlayFirst name required place value candidates with
      | some result => result
      | none => .error [.mismatch place (candidates.map (·.kind)) value.typeName]
    | none =>
      if required then .error [.missing place]
      else
        match candidates with
        | schema :: _ => .ok (.mk name required schema .absent)
        | [] => .error [.emptyUnion place]
termination_by structural a => a

/-- Lays a value over the first schema whose type accepts it. -/
def Schema.overlayFirst (name : String) (required : Bool) (place : Pointer) (value : Json) :
    List Schema → Option (Except (List Violation) Value)
  | [] => none
  | schema :: rest =>
    if schema.accepts value then some (schema.overlayAt name required place (some value))
    else Schema.overlayFirst name required place value rest
termination_by structural schemas => schemas

/-- Lays the value at a place, if there is one, over a schema. -/
def Schema.overlayAt (name : String) (required : Bool) (place : Pointer) :
    Schema → Option Json → Except (List Violation) Value
  | .mk notes shape, data =>
    match Presence.of shape.kind required data with
    | .missing => .error [.missing place]
    | .absent => .ok (.mk name required (.mk notes shape) .absent)
    | .present value =>
      match shape, value with
      | .array none, .array items =>
        .ok (.mk name required (.mk notes (.array none)) (.array (Value.inferItems name items)))
      | .array (some element), .array items =>
        (collect (items.mapIdx fun i item =>
          element.overlayAt (place.pushIndex i) (some item))).map fun elements =>
            .mk name required (.mk notes (.array (some element))) (.array elements)
      | .object none names, .object _ =>
        .ok (.mk name required (.mk notes (.object none names)) (.object []))
      | .object (some attributes) names, .object ms =>
        (collect (Attribute.overlayAll place ms attributes)).map fun children =>
          .mk name required (.mk notes (.object (some attributes) names)) (.object children)
      | shape, value =>
        match Content.ofScalar? shape.kind value with
        | some content => .ok (.mk name required (.mk notes shape) content)
        | none => .error [.mismatch place [shape.kind] value.typeName]
termination_by structural schema => schema

/-- Lays the members of an object over its attributes. -/
def Attribute.overlayAll (place : Pointer) (ms : List (String × Json)) :
    List Attribute → List (Except (List Violation) Value)
  | [] => []
  | a :: rest =>
    a.overlayAt (place.push a.name) (Json.find? ms a.name) :: Attribute.overlayAll place ms rest
termination_by structural as => as

end

/-- Lays data, if there is any, over an attribute tree. -/
def Attribute.overlay (a : Attribute) (data : Option Json) : Except (List Violation) Value :=
  a.overlayAt .root data

/-- The first of some schemas whose type accepts a value. -/
def Schema.firstAccepting? (schemas : List Schema) (value : Json) : Option Schema :=
  schemas.find? (·.accepts value)

end Credential
