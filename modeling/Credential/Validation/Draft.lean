import Credential.Json.Basic
/-!
# Credential.Validation.Draft — the editions of JSON Schema

A schema names its edition under `$schema`; one that names none is read by the newest. Two editions
are known. They differ in two rules: in the older one a schema with `$ref` has no other keyword, and
`format` is a requirement rather than a remark.
-/

namespace Credential.Validation

/-- The edition of JSON Schema by which a schema is read. -/
inductive Draft where
  | draft7
  | draft2020
  deriving DecidableEq, Inhabited

namespace Draft

/-- The address of an edition, without a closing number sign. -/
def address : Draft → String
  | .draft7 => "http://json-schema.org/draft-07/schema"
  | .draft2020 => "https://json-schema.org/draft/2020-12/schema"

/-- The edition for schemas that name none. -/
def newest : Draft := .draft2020

/-- The characters without the number signs at the end. -/
def trimmed (text : String) : String :=
  String.ofList (text.toList.reverse.dropWhile (· = '#')).reverse

/-- The edition of an address, with or without number signs at the end. -/
def ofAddress? (text : String) : Option Draft :=
  [draft7, draft2020].find? (·.address == trimmed text)

/-- The edition a schema names; the inherited one if it names none. The error is the address of
an edition that is not known. -/
def named (inherited : Draft) (schema : Json) : Except String Draft :=
  match (schema.get? "$schema").bind Json.text? with
  | none => .ok inherited
  | some text =>
    match ofAddress? text with
    | some draft => .ok draft
    | none => .error (trimmed text)

/-- The edition by which a schema inside of another one is read. -/
def inside (inherited : Draft) (schema : Json) : Draft :=
  match named inherited schema with
  | .ok draft => draft
  | .error _ => newest

/-- Whether a reference stands for the whole schema, whatever is beside it. -/
def referenceStandsAlone : Draft → Bool
  | .draft7 => true
  | .draft2020 => false

/-- Whether `format` is a requirement. -/
def assertsFormat : Draft → Bool
  | .draft7 => true
  | .draft2020 => false

end Draft

end Credential.Validation
