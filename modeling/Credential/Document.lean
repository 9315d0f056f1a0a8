import Credential.Attribute.Build
import Credential.JsonLd
import Credential.Validation.Payload
/-!
# Credential.Document — what is wrong with a document

A document serves as a credential schema, as a JSON-LD context or as the schema of a payload; each use
has errors of its own.
-/

namespace Credential

/-- Why a document cannot be used. -/
inductive DocumentError where
  | attribute (error : BuildError)
  | context (error : ContextError)
  | validator (fault : String)

/-- The error as shown. -/
def DocumentError.message : DocumentError → String
  | .attribute error => error.message
  | .context error => error.message
  | .validator fault => Validation.faultReport fault

end Credential
