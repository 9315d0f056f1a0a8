import Credential.Configuration
import Credential.Document
import Credential.Failure.Cause
import Credential.Http.Exchange
/-!
# Credential.Client.Error — why a document could not be fetched

Each error has two readings as a failure. `ClientError.failure` keeps what is known: a cancelled request
is a cancellation, an answer with an error status a failed request. `ClientError.causes` puts the error
into a chain, where it is a cause of no recognised kind.
-/

namespace Credential

/-- Why a document could not be fetched. -/
inductive ClientError where
  /-- No answer came. -/
  | transport (url : String) (cause : Http.TransportError)
  /-- The answer has an error status. -/
  | status (url : String) (code : Option Nat) (text : String)
  /-- The answer is no JSON. -/
  | undecodable (url : String) (cause : Http.TransportError)
  /-- The document cannot be used. -/
  | document (url : String) (cause : DocumentError)
  | cancelled (url : String)
  | config (cause : ConfigError)

namespace ClientError

/-- The error as shown. -/
def message : ClientError → String
  | .transport url cause => "HTTP error fetching " ++ url ++ ": " ++ cause.text
  | .status url code text => url ++ " returned " ++ requestMessage code text
  | .undecodable url cause => "failed to deserialize response from " ++ url ++ ": " ++ cause.text
  | .document url cause => "unusable document at " ++ url ++ ": " ++ cause.message
  | .cancelled url => "request to " ++ url ++ " cancelled"
  | .config cause => "configuration error: " ++ cause.message

/-- The failure an error stands for. -/
def failure : ClientError → Failure
  | .cancelled _ => .cancel
  | .status _ code text => .request code text
  | .transport _ cause => .request cause.status cause.text
  | error => .general error.message

/-- The text of what lies behind an error, if something does. -/
def inner? : ClientError → Option String
  | .transport _ cause => some cause.text
  | .status _ _ _ => none
  | .undecodable _ cause => some cause.text
  | .document _ cause => some cause.message
  | .cancelled _ => none
  | .config cause => some cause.message

/-- The error as a chain of causes. -/
def causes (e : ClientError) : List Cause := .foreign e.message :: (e.inner?.map Cause.foreign).toList

end ClientError

end Credential
