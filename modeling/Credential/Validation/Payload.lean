import Credential.Failure.Cause
import Credential.Validation.Report
/-!
# Credential.Validation.Payload — payloads checked in one step

`Library.check` compiles a schema and judges a payload by it. Put into a chain of causes, its error is a
cause of no recognised kind: the issues are told in its text only.
-/

namespace Credential.Validation

/-- Why a payload is not accepted. -/
inductive PayloadError where
  /-- The schema does not compile. -/
  | schema (fault : String)
  /-- The payload has issues. -/
  | invalid (issues : List Issue)
  /-- The schema refers to itself without end. -/
  | endless

/-- The text of a schema that does not compile. -/
def faultReport (fault : String) : String := "validator build error: " ++ fault

namespace PayloadError

/-- The error as shown. -/
def message : PayloadError → String
  | .schema fault => faultReport fault
  | .invalid issues => Issue.report issues
  | .endless => "the schema refers to itself without end"

/-- The error as a chain of causes. -/
def causes (e : PayloadError) : List Cause := [.foreign e.message]

end PayloadError

/-- Checks a payload with a compiled schema. -/
def Validator.check {L : Library} (v : Validator L) (payload : Json) : Except PayloadError Unit :=
  match v.issues? payload with
  | some [] => .ok ()
  | some issues => .error (.invalid issues)
  | none => .error .endless

/-- Compiles a schema and checks a payload with it. -/
def Library.check (L : Library) (schema payload : Json) : Except PayloadError Unit := do
  let v ← (Validator.compile L schema).mapError .schema
  v.check payload

end Credential.Validation
