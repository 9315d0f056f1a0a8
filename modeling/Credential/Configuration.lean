import Credential.Url.Parser
/-!
# Credential.Configuration — where documents come from

A configuration names the server of the application, what to log in with, and a gateway through which
documents of the `ipfs` scheme are fetched. It is read from variables of the environment, or made for a
server on the same machine. `Configuration.documentUrl` finds the address of a document: what follows
`ipfs://` is put behind the gateway's address and `/ipfs/`, and the whole is read again.
-/

namespace Credential

/-- Why there is no configuration, or no address. -/
inductive ConfigError where
  | missingApiUrl
  /-- A text is no address; `source` says which. -/
  | invalidUrl (source : String) (reason : UrlError)
  deriving DecidableEq

/-- The error as shown. -/
def ConfigError.message : ConfigError → String
  | .missingApiUrl => "VCC_API_URL environment variable is required"
  | .invalidUrl source reason => "invalid URL for " ++ source ++ ": " ++ reason.message

/-- Where documents come from. -/
structure Configuration where
  apiUrl : Url
  username : Option String
  password : Option String
  gateway : Url
  issuer : Option String
  /-- How many seconds a request may take. -/
  timeout : Nat
  deriving Inhabited

namespace Configuration

/-- The gateway unless another one is named. -/
def defaultGateway : String := "https://ipfs.io"

/-- The seconds a request may take unless told otherwise. -/
def defaultTimeout : Nat := 30

/-- A number of at most 64 bits in decimal digits, after at most one plus sign. -/
def count? (text : String) : Option Nat :=
  let digits := match text.toList with
    | '+' :: rest => rest
    | cs => cs
  if digits.isEmpty || !digits.all Char.isDigit then none
  else some (Numeral.decimal digits) |>.filter (· < Nat.pow 2 64)

/-- Reads the address of a named source. -/
def readUrl (source text : String) : Except ConfigError Url :=
  (Url.parse text).mapError (.invalidUrl source)

/-- The variables that a configuration is read from. -/
def variableNames : List String :=
  ["VCC_API_URL", "VCC_API_USERNAME", "VCC_API_PASSWORD", "VCC_IPFS_GATEWAY_URL", "VCC_ISSUER_NAME",
    "VCC_TIMEOUT_SECS"]

/-- The configuration that the variables of the environment describe; an empty name, password or issuer
counts as none. -/
def ofEnvironment (lookup : String → Option String) : Except ConfigError Configuration := do
  let some apiText := lookup "VCC_API_URL" | throw .missingApiUrl
  let apiUrl ← readUrl "VCC_API_URL" apiText
  let gateway ← readUrl "VCC_IPFS_GATEWAY_URL" ((lookup "VCC_IPFS_GATEWAY_URL").getD defaultGateway)
  let nonEmpty (name : String) : Option String := (lookup name).filter (!·.isEmpty)
  pure
    { apiUrl, gateway
      username := nonEmpty "VCC_API_USERNAME"
      password := nonEmpty "VCC_API_PASSWORD"
      issuer := nonEmpty "VCC_ISSUER_NAME"
      timeout := ((lookup "VCC_TIMEOUT_SECS").bind count?).getD defaultTimeout }

/-- The configuration for a server on the same machine, which is its own gateway. -/
def ofServer (text : String) : Except ConfigError Configuration := do
  let url ← readUrl text text
  pure { apiUrl := url, username := none, password := none, gateway := url, issuer := none, timeout := 5 }

/-- The password as it may be shown. -/
def shownPassword (c : Configuration) : String :=
  if c.password.isSome then "Some(\"[REDACTED]\")" else "None"

/-! ## Documents -/

/-- What marks the name of a document that is fetched through the gateway. -/
def ipfsMark : List Char := "ipfs://".toList

/-- A text without the slashes at its end. -/
def withoutSlashes (text : String) : String :=
  String.ofList (text.toList.reverse.dropWhile (· = '/')).reverse

/-- The name of a document behind the gateway's address; any other name as it is. -/
def documentText (c : Configuration) (name : String) : String :=
  if ipfsMark.isPrefixOf name.toList then
    withoutSlashes c.gateway.text ++ "/ipfs/" ++ String.ofList (name.toList.drop ipfsMark.length)
  else name

/-- The address of a document. -/
def documentUrl (c : Configuration) (name : String) : Except ConfigError Url :=
  let text := c.documentText name
  readUrl text text

end Configuration

end Credential
