import Credential.Command.Invocation
import Credential.Command.Local
import Credential.Json.Printer
/-!
# Credential.Command.Outcome — what a command line gives

A command gives a JSON value, printed over several lines, or a failure, told with its kind on the stream
for errors. The exit code is 0, or 1 for a failure, 2 for a command line that is none, and 130 for a
cancelled request.
-/

namespace Credential.Command

/-- What commands work on. -/
structure Surroundings where
  files : Files
  /-- The variables of the environment. -/
  lookup : String → Option String
  network : Http.Network

/-- What a command line gives. -/
structure Outcome where
  code : Nat
  output : String
  errors : String
  /-- The request that was sent, if one was. -/
  request : Option Http.Request

/-- Fetches with the configuration of the environment. -/
def fetchConfigured (s : Surroundings) (url : String) (kind : FetchKind) :
    Option Http.Request × Except (List Cause) Json :=
  match Configuration.ofEnvironment s.lookup with
  | .ok config => fetch config s.network kind url
  | .error error => (none, .error [.foreign error.message])

/-- Carries out a command. -/
def perform (s : Surroundings) : Invocation → Option Http.Request × Except (List Cause) Json
  | .hash id => (none, hash id)
  | .attributes schema subject => (none, attributes s.files schema subject)
  | .values schema data subject validated => (none, values s.files schema data subject validated)
  | .types context => (none, types s.files context)
  | .fetch url kind => fetchConfigured s url kind

namespace Outcome

/-- The outcome of a failure. A cancelled request is nothing to complain about. -/
def ofFailure (f : Failure) (request : Option Http.Request) : Outcome :=
  if f.isCancellation then ⟨130, "", "", request⟩
  else ⟨1, "", f.kind.tag ++ ": " ++ f.message ++ "\n", request⟩

/-- The outcome of a command. -/
def ofResult (result : Except (List Cause) Json) (request : Option Http.Request) : Outcome :=
  match result with
  | .ok value => ⟨0, value.pretty ++ "\n", "", request⟩
  | .error causes => ofFailure (Cause.classify causes) request

/-- What is told about the program, line by line. -/
def usageLines : List String :=
  ["Credentials console CLI: schema identifiers, attribute trees, and credential value overlays",
    "",
    "Usage: vcc [OPTIONS] <COMMAND>",
    "",
    "Commands:",
    "  hash        Compute the schema hash and BigInt of a JSON-LD type id",
    "  attributes  Print the attribute tree of a JSON Schema",
    "  values      Validate credential data and overlay it on a schema",
    "  types       List the credential types declared by a JSON-LD context",
    "  fetch       Fetch a remote schema, context or JSON document",
    "  help        Print this message or the help of the given subcommand(s)",
    "",
    "Options:",
    "      --json     Emit logs as JSON",
    "  -h, --help     Print help",
    "  -V, --version  Print version"]

/-- What is told about the program. -/
def usage : String := String.join (usageLines.map (· ++ "\n"))

/-- The outcome of a command line that asks for no command. -/
def ofStop : ReadStop → Outcome
  | .version => ⟨0, "vcc 0.1.0\n", "", none⟩
  | .help => ⟨0, usage, "", none⟩
  | .misuse => ⟨2, "", usage, none⟩

end Outcome

/-- Carries out a command line. -/
def run (s : Surroundings) (words : List String) : Outcome :=
  match Invocation.read words with
  | .error stop => .ofStop stop
  | .ok invocation =>
    let (request, result) := perform s invocation
    .ofResult result request

end Credential.Command
