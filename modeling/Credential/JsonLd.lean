import Credential.Attribute.Basic
import Credential.Json.Pointer
/-!
# Credential.JsonLd — credential types in JSON-LD contexts, and schema metadata

A context declares a credential type as a term whose value is an object with an `@id` and an `@context`
of its own. A credential schema names its type and its context in a `$metadata` block.
-/

namespace Credential

/-! ## Declared types -/

/-- A credential type: its identifier and the term that names it. -/
structure CredentialType where
  id : String
  name : String
  deriving DecidableEq

namespace CredentialType

/-- The type as shown. -/
def text (t : CredentialType) : String := t.name ++ " <" ++ t.id ++ ">"

/-- The object of a type. -/
def toJson (t : CredentialType) : Json := .object [("id", .string t.id), ("name", .string t.name)]

end CredentialType

/-- Why a document is no JSON-LD context. -/
inductive ContextError where
  | missing
  | notAContext
  deriving DecidableEq

/-- The error as shown. -/
def ContextError.message : ContextError → String
  | .missing => "invalid JSON-LD context: missing @context"
  | .notAContext => "invalid JSON-LD context: @context must be an object or an array"

namespace JsonLd

/-- The type a term declares, if it declares one. Keywords start with `@` and declare none. -/
def typeOfTerm? : String × Json → Option CredentialType
  | (term, .object definition) =>
    if term.startsWith "@" || !Json.declares definition "@context" then none
    else ((Json.find? definition "@id").bind Json.text?).map fun id => ⟨id, term⟩
  | _ => none

/-- The types declared by a context, in order of declaration. -/
def types (document : Json) : Except ContextError (List CredentialType) :=
  match document.get? "@context" with
  | none => .error .missing
  | some (.object scope) => .ok (scope.filterMap typeOfTerm?)
  | some (.array scopes) =>
    .ok ((scopes.filterMap Json.members?).flatMap (·.filterMap typeOfTerm?))
  | some _ => .error .notAContext

/-- The first of some types with a name. -/
def find? (types : List CredentialType) (name : String) : Option CredentialType :=
  types.find? (·.name == name)

end JsonLd

/-! ## Metadata -/

/-- What a credential schema says about itself. -/
structure SchemaMetadata where
  typeName : Option String
  context : Option String
  version : Option String
  deriving DecidableEq

/-- The metadata of a schema document; what is missing or malformed is left out. -/
def SchemaMetadata.of (document : Json) : SchemaMetadata :=
  match document.get? "$metadata" with
  | none => ⟨none, none, none⟩
  | some metadata =>
    { typeName := (metadata.get? "type").bind Json.text?
      context := (metadata.at? ⟨["uris", "jsonLdContext"]⟩).bind Json.text?
      version := (metadata.get? "version").bind Json.text? }

/-! ## The credential subject -/

/-- The property that holds the claims of a credential. -/
def subjectName : String := "credentialSubject"

/-- The attribute of the claims: the object child of that name, if the root has one. -/
def Attribute.subject? (root : Attribute) : Option Attribute :=
  (root.child? subjectName).filter (·.isObject)

end Credential
