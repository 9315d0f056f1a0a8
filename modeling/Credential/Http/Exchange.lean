import Credential.Http.Authorization
import Credential.Http.Status
import Credential.Url.Basic
/-!
# Credential.Http.Exchange — one request and its answer

A `Network` answers requests as a function of the request. Where no answer comes, it tells why: nobody
listens, the answer takes too long, or leads round in a circle. Only addresses of the schemes `http` and
`https` can be asked for.

Name and password in an address are no part of it on the way: they are taken off and sent as a header of
their own.
-/

namespace Credential.Http

/-- What a server is asked for. -/
structure Request where
  url : Url
  authorization : Option String
  deriving DecidableEq

/-- What a server answers. -/
structure Response where
  status : Nat
  body : String
  deriving DecidableEq

/-- Why there is no usable answer. -/
structure TransportError where
  /-- The error as shown. -/
  text : String
  /-- The status of the answer, where one came and could not be used. -/
  status : Option Nat
  deriving DecidableEq

/-- The answer to each request, or why there is none. -/
abbrev Network := Request → Except TransportError Response

/-- The address as sent: without name and password. -/
def bareUrl (url : Url) : Url := { url with username := "", password := none }

namespace TransportError

/-- The address cannot be asked for. -/
def unsupported (url : Url) : TransportError :=
  ⟨"builder error for url (" ++ (bareUrl url).text ++ ")", none⟩

/-- Nobody answers. -/
def unreachable (url : Url) : TransportError :=
  ⟨"error sending request for url (" ++ (bareUrl url).text ++ ")", none⟩

/-- The body of the answer cannot be read. -/
def undecodable : TransportError := ⟨"error decoding response body", none⟩

end TransportError

/-- The text behind percent signs, if it makes up characters. -/
def decodedPart (part : String) : Option String := Percent.decode? part.toList

/-- The header that the name and password in an address make up. -/
def urlAuthorization? (url : Url) : Option String :=
  if url.username.isEmpty && url.password.isNone then none
  else some (basicAuthorization ((decodedPart url.username).getD "") (url.password.bind decodedPart))

/-- Whether an address can be asked for. -/
def canRequest (url : Url) : Bool :=
  (url.scheme == "http" || url.scheme == "https") && url.host.isSome

/-- The characters of a body that is read as text; a mark of the byte order in front is not part of it. -/
def bodyText (body : String) : String :=
  match body.toList with
  | '\ufeff' :: rest => String.ofList rest
  | _ => body

/-- The body that arrives with an answer. -/
def Response.content (r : Response) : String := if hasBody r.status then r.body else ""

end Credential.Http
