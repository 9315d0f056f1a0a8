import Credential.Url.Host
/-!
# Credential.Url.Basic — addresses of documents

A `Url` is kept in parts, and all parts are kept as they are written. The path of most addresses is a
list of segments; that of an address such as `urn:a:b` is one opaque text.
-/

namespace Credential

/-- The path of an address. -/
inductive UrlPath where
  | opaqueText (text : String)
  | segments (list : List String)
  deriving DecidableEq, Inhabited

/-- An address in its parts. -/
structure Url where
  scheme : String
  username : String
  password : Option String
  host : Option Host
  /-- The port, unless it is the usual one of the scheme. -/
  port : Option Nat
  path : UrlPath
  query : Option String
  fragment : Option String
  deriving DecidableEq, Inhabited

namespace Url

/-! ## Schemes -/

/-- The usual port of a scheme. -/
def defaultPort? (scheme : String) : Option Nat :=
  match scheme with
  | "http" => some 80
  | "ws" => some 80
  | "https" => some 443
  | "wss" => some 443
  | "ftp" => some 21
  | _ => none

/-- The schemes whose addresses always have a host and a path. -/
def isSpecial (scheme : String) : Bool := scheme == "file" || (defaultPort? scheme).isSome

/-- Whether the scheme of an address is one of those. -/
def special (u : Url) : Bool := isSpecial u.scheme

/-! ## Text -/

/-- The part between the double slash and the host. -/
def credentialsText (u : Url) : String :=
  let secret := match u.password with
    | some p => ":" ++ p
    | none => ""
  if u.username.isEmpty && u.password.isNone then "" else u.username ++ secret ++ "@"

/-- The part between the scheme and the path. -/
def authorityText (u : Url) : String :=
  match u.host with
  | none => ""
  | some host =>
    let port := match u.port with
      | some p => ":" ++ Nat.repr p
      | none => ""
    "//" ++ u.credentialsText ++ host.text ++ port

/-- The text of a path. -/
def pathText (u : Url) : String :=
  match u.path with
  | .opaqueText text => text
  | .segments list => String.join (list.map ("/" ++ ·))

/-- A mark before a path that starts with an empty segment, so that it is not taken for a host. -/
def pathMark (u : Url) : String :=
  match u.host, u.path with
  | none, .segments ("" :: _ :: _) => "/."
  | _, _ => ""

/-- The path with the query: what a server is asked for. -/
def target (u : Url) : String :=
  u.pathText ++ match u.query with
    | some q => "?" ++ q
    | none => ""

/-- The address as written. -/
def text (u : Url) : String :=
  u.scheme ++ ":" ++ u.authorityText ++ u.pathMark ++ u.target ++ match u.fragment with
    | some f => "#" ++ f
    | none => ""

/-! ## Origins -/

/-- The server an address leads to. -/
structure Origin where
  scheme : String
  host : Host
  port : Nat
  deriving DecidableEq

/-- The origin of an address; only addresses with a usual port have one. -/
def origin? (u : Url) : Option Origin := do
  let usual ← defaultPort? u.scheme
  let host ← u.host
  pure ⟨u.scheme, host, u.port.getD usual⟩

/-- Whether two addresses lead to the same server. -/
def sameOrigin (u v : Url) : Bool :=
  match u.origin?, v.origin? with
  | some a, some b => a = b
  | _, _ => false

/-- The text of an origin. -/
def Origin.text (o : Origin) : String :=
  let port := if defaultPort? o.scheme = some o.port then "" else ":" ++ Nat.repr o.port
  o.scheme ++ "://" ++ o.host.text ++ port

end Url

end Credential
