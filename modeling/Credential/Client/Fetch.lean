import Credential.Attribute.Codec
import Credential.Client.Error
import Credential.Json.Parser
import Credential.Text
/-!
# Credential.Client.Fetch — fetching documents

A document is fetched with one request; `Exchange` keeps it beside the result. The name and password of
the configuration are sent only to the server of the application. A request whose token is cancelled
beforehand is not sent.

The message of an answer with an error status is the first of `message`, `error` and `detail` that is a
string in a JSON body, else the body without blanks at its ends, else the text of the status.
-/

namespace Credential

/-- The request that was sent, if one was, and what came of it. -/
structure Exchange (α : Type) where
  request : Option Http.Request
  result : Except ClientError α

namespace Exchange

/-- An exchange that ends before a request is sent. -/
def refused {α : Type} (error : ClientError) : Exchange α := ⟨none, .error error⟩

/-- The same request with a further step on its result. -/
def andThen {α β : Type} (x : Exchange α) (next : α → Except ClientError β) : Exchange β :=
  ⟨x.request, x.result >>= next⟩

end Exchange

namespace Client

/-! ## Messages of error answers -/

/-- The members of a body that may hold a message, in order of preference. -/
def messageFields : List String := ["message", "error", "detail"]

/-- The first member of a JSON body that holds a message. -/
def messageField? (body : String) : Option String :=
  match Json.parse body with
  | .ok (.object members) =>
    messageFields.findSome? fun field => (Json.find? members field).bind Json.text?
  | _ => none

/-- The message in the body of an answer. -/
def extractMessage (body : String) : Option String :=
  match messageField? body with
  | some message => some message
  | none => some (Text.trim body) |>.filter (!·.isEmpty)

/-- The message of an answer with an error status. -/
def errorMessage (status : Nat) (body : String) : String :=
  (extractMessage body).getD (Http.statusText status)

/-! ## Requests -/

/-- What a request to an address is authorized with: what the address itself names, else what the
configuration names if the address leads to the server of the application. -/
def authorization? (config : Configuration) (url : Url) : Option String :=
  match Http.urlAuthorization? url with
  | some header => some header
  | none =>
    if url.sameOrigin config.apiUrl then
      config.username.map fun username => Http.basicAuthorization username config.password
    else none

/-- What an answer says. -/
def readResponse (url : String) (response : Http.Response) : Except ClientError Json :=
  if Http.isSuccess response.status then
    match Json.parse response.content with
    | .ok document => .ok document
    | .error _ => .error (.undecodable url .undecodable)
  else
    .error (.status url response.status
      (errorMessage response.status (Http.bodyText response.content)))

/-- Fetches what is at an address. -/
def get (config : Configuration) (network : Http.Network) (cancelled : Bool) (url : Url) :
    Exchange Json :=
  let label := url.text
  if cancelled then .refused (.cancelled label)
  else if !Http.canRequest url then .refused (.transport label (.unsupported url))
  else
    let request : Http.Request := ⟨Http.bareUrl url, authorization? config url⟩
    match network request with
    | .ok response => ⟨some request, readResponse label response⟩
    | .error cause => ⟨some request, .error (.transport label cause)⟩

/-- Fetches a document by its name or address. -/
def fetchJson (config : Configuration) (network : Http.Network) (cancelled : Bool)
    (name : String) : Exchange Json :=
  match config.documentUrl name with
  | .ok url => get config network cancelled url
  | .error error => .refused (.config error)

/-- Fetches a credential schema and builds its attribute tree. -/
def fetchSchema (config : Configuration) (network : Http.Network) (cancelled : Bool)
    (name : String) : Exchange Attribute :=
  (fetchJson config network cancelled name).andThen fun document =>
    (Attribute.ofDocument document).mapError fun error => .document name (.attribute error)

/-- Fetches a JSON-LD context and lists its types. -/
def fetchTypes (config : Configuration) (network : Http.Network) (cancelled : Bool)
    (name : String) : Exchange (List CredentialType) :=
  (fetchJson config network cancelled name).andThen fun document =>
    (JsonLd.types document).mapError fun error => .document name (.context error)

/-- Fetches from the server of the application, by an address relative to its own. -/
def fetchApi (config : Configuration) (network : Http.Network) (cancelled : Bool)
    (path : String) : Exchange Json :=
  match config.apiUrl.join path with
  | .ok url => get config network cancelled url
  | .error reason => .refused (.config (.invalidUrl path reason))

end Client

end Credential
