import Credential.Attribute.Codec
import Credential.Command.File
import Credential.Document
import Credential.Fingerprint.Basic
import Credential.Validation.Engine
import Credential.Value.Codec
import Credential.Value.Overlay
/-!
# Credential.Command.Local — what can be done with files alone

`hash` names a type by its fingerprint, `types` does so for all types of a JSON-LD context, `attributes`
shows the attribute tree of a schema, and `values` lays data over it. Data is first judged by the schema
unless that is not wanted; whatever then does not fit the attributes is an issue as well.
-/

namespace Credential

/-- The two names as members of an object. -/
def Identifiers.toMembers (names : Identifiers) : List (String × Json) :=
  [("schemaHash", .string names.hash), ("bigInt", .string names.number)]

namespace Command

/-- The fingerprint of a type. -/
def hash (id : String) : Except (List Cause) Json :=
  (during "An error occurred while calculating the schema hash"
    ((Fingerprint.identifiers? id).mapError (·.message))).map fun names => .object names.toMembers

/-! ## Schemas -/

/-- A cause that is known by the text of a document's error. -/
def documentCauses (error : DocumentError) : List Cause := [.foreign error.message]

/-- The attribute of the credential subject, if that is wanted, else the whole tree. -/
def select (root : Attribute) (subject : Bool) : Except (List Cause) Attribute :=
  if subject then
    match root.subject? with
    | some node => .ok node
    | none => .error [.foreign "schema has no object-typed credentialSubject property"]
  else .ok root

/-- The attribute tree of a schema. -/
def attributes (files : Files) (schema : String) (subject : Bool) : Except (List Cause) Json := do
  let document ← readDocument files schema
  let root ← during ("invalid schema " ++ schema)
    ((Attribute.ofDocument document).mapError fun e => (DocumentError.attribute e).message)
  pure (← select root subject).toJson

/-! ## Data -/

/-- The schema that data is judged by: that of the credential subject, if the data is one. -/
def payloadSchema (document : Json) (subject : Bool) : Except (List Cause) Json :=
  if subject then
    match document.at? ⟨["properties", subjectName]⟩ with
    | some schema => .ok schema
    | none => .error [.foreign "schema has no credentialSubject property"]
  else .ok document

/-- What stands in a chain of causes for a payload that is not accepted. -/
def payloadCauses : Validation.PayloadError → List Cause
  | .schema fault => documentCauses (.validator fault)
  | .invalid issues => [.invalid issues]
  | .endless => Validation.PayloadError.endless.causes

/-- Judges data by a schema. -/
def validate (document data : Json) (subject : Bool) : Except (List Cause) Unit := do
  let schema ← payloadSchema document subject
  (Validation.checkPayload schema data).mapError payloadCauses

/-- Lays data over the attributes of a schema. -/
def overlay (document data : Json) (subject validated : Bool) : Except (List Cause) Json := do
  if validated then validate document data subject
  let root ← (Attribute.ofDocument document).mapError fun e => documentCauses (.attribute e)
  let target ← select root subject
  let value ← (target.overlay (some data)).mapError fun violations =>
    [.invalid (violations.map (·.issue))]
  pure value.toTree

/-- The values of the data in a file by the schema in another. -/
def values (files : Files) (schema data : String) (subject validated : Bool) :
    Except (List Cause) Json := do
  let document ← readDocument files schema
  let payload ← readDocument files data
  overlay document payload subject validated

/-! ## Contexts -/

/-- A type with its fingerprint. -/
def describe (type : CredentialType) : Except (List Cause) Json := do
  let names ← during ("An error occurred while calculating the schema hash of " ++ type.text)
    ((Fingerprint.identifiers? type.id).mapError (·.message))
  pure (.object ([("id", .string type.id), ("name", .string type.name)] ++ names.toMembers))

/-- The types of a context with their fingerprints. -/
def types (files : Files) (context : String) : Except (List Cause) Json := do
  let document ← readDocument files context
  let types ← (JsonLd.types document).mapError fun e => documentCauses (.context e)
  pure (.array (← types.mapM describe))

end Command

end Credential
