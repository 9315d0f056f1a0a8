import Credential.Client.Fetch
import Credential.Request.Slot
/-!
# Credential.Command.Fetch — fetching and showing a document

The document is fetched as plain JSON, as a credential schema or as a list of types. The request runs in
a slot of its own, whose task is then read off, so it ends in data or in a failure.
-/

namespace Credential

/-- What a fetched document is used as. -/
inductive FetchKind where
  | json
  | schema
  | types
  deriving DecidableEq

namespace FetchKind

/-- The word for a use. -/
def word : FetchKind → String
  | .json => "json"
  | .schema => "schema"
  | .types => "types"

/-- All uses. -/
def all : List FetchKind := [json, schema, types]

/-- The use of a word. -/
def ofWord? (word : String) : Option FetchKind := all.find? (·.word == word)

end FetchKind

namespace Client

/-- Fetches a document and shows it as what it is used as. -/
def fetchAs (config : Configuration) (network : Http.Network) (cancelled : Bool) (kind : FetchKind)
    (name : String) : Exchange Json :=
  match kind with
  | .json => fetchJson config network cancelled name
  | .schema => (fetchSchema config network cancelled name).andThen fun a => .ok a.toJson
  | .types =>
    (fetchTypes config network cancelled name).andThen fun types =>
      .ok (.array (types.map CredentialType.toJson))

end Client

namespace Command

/-- The data of a task, or the causes of its failure. -/
def outcome (task : RemoteTask Json) : Except (List Cause) Json :=
  match task with
  | .successful data => .ok data
  | .failed failure => .error [.failure failure]
  | _ => .error [.failure .cancel]

/-- Hands the result of a fetch to a slot of its own and reads its task. -/
def settle (label : String) (result : Except ClientError Json) : Except (List Cause) Json :=
  let (token, slot, pool) := (Slot.new label).start TokenPool.empty
  match slot.resolve pool token (result.mapError ClientError.failure) with
  | .ok (_, slot) => outcome slot.task
  | .error error => .error [.foreign error.message]

/-- Fetches a document; gives the request that was sent and the outcome. -/
def fetch (config : Configuration) (network : Http.Network) (kind : FetchKind) (name : String) :
    Option Http.Request × Except (List Cause) Json :=
  let x := Client.fetchAs config network false kind name
  (x.request, settle name x.result)

end Command

end Credential
