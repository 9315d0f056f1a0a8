import Credential.Url.Basic
/-!
# Credential.Url.Parser — reading addresses

Addresses are read by the URL standard of the web. Blanks at the ends and line breaks anywhere do not
count; what a part may not hold is written with percent signs; dots in a path are resolved as it is read
(`Url.resolve`). In the addresses of special schemes a backslash is a slash and the number of slashes
before the host does not matter. A text without a scheme can be read only relative to another address.
-/

namespace Credential.Url

/-! ## Characters to escape -/

/-- The characters escaped in a fragment. -/
def escapedInFragment (c : Char) : Bool := " \"<>`".toList.contains c

/-- The characters escaped in a path. -/
def escapedInPath (c : Char) : Bool :=
  escapedInFragment c || c = '#' || c = '?' || c = '\x7b' || c = '\x7d'

/-- The characters escaped in a name and password. -/
def escapedInCredentials (c : Char) : Bool := escapedInPath c || "/:;=@[\\]^|".toList.contains c

/-- The characters escaped in a query. -/
def escapedInQuery (special : Bool) (c : Char) : Bool :=
  " \"#<>".toList.contains c || special && c = '\''

/-- Some characters, escaped. -/
def escape (escaped : Char → Bool) (cs : List Char) : String :=
  String.ofList (Percent.encode escaped cs)

/-! ## Preparation -/

/-- Neither a control character nor a blank. -/
def isVisible (c : Char) : Bool := 32 < c.toNat

/-- A text without blanks at its ends and without tabs and line breaks. -/
def prepare (text : String) : List Char :=
  let cs := (text.toList.dropWhile (!isVisible ·)).reverse.dropWhile (!isVisible ·) |>.reverse
  cs.filter fun c => c ≠ '\t' && c ≠ '\n' && c ≠ '\r'

/-- The scheme in lower case and what follows it, if the text starts with one. -/
def splitScheme? (cs : List Char) : Option (String × List Char) :=
  let isSchemeChar (c : Char) : Bool := c.isAlphanum || c = '+' || c = '-' || c = '.'
  match cs.dropWhile isSchemeChar with
  | ':' :: rest =>
    if cs.head?.any Char.isAlpha then
      some (String.ofList ((cs.takeWhile isSchemeChar).map Char.toLower), rest)
    else none
  | _ => none

/-- What ends a path. -/
def endsPath (c : Char) : Bool := c = '?' || c = '#'

/-- The query and the fragment at the end of an address. -/
def splitTail (special : Bool) (cs : List Char) : Option String × Option String :=
  let beforeFragment := cs.takeWhile (· ≠ '#')
  let fragment := match cs.dropWhile (· ≠ '#') with
    | _ :: rest => some (escape escapedInFragment rest)
    | [] => none
  let query := match beforeFragment with
    | '?' :: rest => some (escape (escapedInQuery special) rest)
    | _ => none
  (query, fragment)

/-! ## Paths -/

/-- A segment that stands for the directory it is in. -/
def isSingleDot (cs : List Char) : Bool := [".", "%2e"].contains (String.ofList (cs.map Char.toLower))

/-- A segment that stands for the directory above. -/
def isDoubleDot (cs : List Char) : Bool :=
  ["..", "%2e.", ".%2e", "%2e%2e"].contains (String.ofList (cs.map Char.toLower))

/-- A drive letter as a segment of its own. -/
def isDriveLetter : List Char → Bool
  | [c, d] => c.isAlpha && (d = ':' || d = '|')
  | _ => false

/-- A path without its last segment; the drive letter of a file stays. -/
def shorten (isFile : Bool) (path : List String) : List String :=
  if isFile && path.length = 1 && path.all (fun s => isDriveLetter s.toList) then path
  else path.dropLast

/-- One more segment of a path: dots are resolved, anything else is escaped. A path that ends with dots
ends with an empty segment. -/
def step (isFile : Bool) (path : List String) (segment : List Char) (isLast : Bool) : List String :=
  let close (path : List String) : List String := if isLast then path ++ [""] else path
  if isDoubleDot segment then close (shorten isFile path)
  else if isSingleDot segment then close path
  else if isFile && path.isEmpty && isDriveLetter segment then
    path ++ [String.ofList (segment.take 1 ++ [':'])]
  else path ++ [escape escapedInPath segment]

/-- The segments of a path added to those before them. -/
def resolve (isFile : Bool) : List String → List (List Char) → List String
  | path, [] => path
  | path, [last] => step isFile path last true
  | path, segment :: rest => resolve isFile (step isFile path segment false) rest

/-- The segments between slashes; a backslash counts as one if the scheme is special. -/
def splitPath (special : Bool) : List Char → List (List Char)
  | [] => [[]]
  | c :: cs =>
    if c = '/' || special && c = '\\' then [] :: splitPath special cs
    else
      match splitPath special cs with
      | part :: rest => (c :: part) :: rest
      | [] => [[c]]

/-- The path after a host or at the root. -/
def absolutePath (scheme : String) (cs : List Char) : List String :=
  let special := isSpecial scheme
  let rest := match cs with
    | c :: rest => if c = '/' || special && c = '\\' then rest else cs
    | [] => []
  if cs.isEmpty && !special then [] else resolve (scheme == "file") [] (splitPath special rest)

/-! ## Hosts, ports and credentials -/

/-- The name and the password before the last at sign, and what follows it. An address that ends there
has no host. -/
def splitCredentials (authority : List Char) :
    Except UrlError ((String × Option String) × List Char) :=
  if !authority.contains '@' then .ok (("", none), authority)
  else
    let host := (authority.reverse.takeWhile (· ≠ '@')).reverse
    let user := (authority.reverse.dropWhile (· ≠ '@')).drop 1 |>.reverse
    if host.isEmpty then .error .emptyHost
    else
      let name := escape escapedInCredentials (user.takeWhile (· ≠ ':'))
      match (user.dropWhile (· ≠ ':')).drop 1 with
      | [] => .ok ((name, none), host)
      | secret => .ok ((name, some (escape escapedInCredentials secret)), host)

/-- The characters of a host, up to a colon outside of brackets, and the rest. -/
def splitHost : Bool → List Char → List Char × List Char
  | _, [] => ([], [])
  | inside, c :: rest =>
    if c = ':' && !inside then ([], c :: rest)
    else
      let (host, after) := splitHost (c = '[' || inside && c ≠ ']') rest
      (c :: host, after)

/-- The port after a colon; none if it is the usual one or not written. -/
def parsePort (scheme : String) (cs : List Char) : Except UrlError (Option Nat) :=
  if cs.all Char.isDigit then
    let port := Numeral.decimal cs
    if 65535 < port then .error .invalidPort
    else if cs.isEmpty || defaultPort? scheme = some port then .ok none
    else .ok (some port)
  else .error .invalidPort

/-- The host of a scheme; the addresses of files may do without one. -/
def parseHost (scheme : String) (cs : List Char) : Except UrlError (Option Host) :=
  if scheme == "file" then
    if cs.isEmpty then .ok none
    else
      match Host.parse cs with
      | .ok (.name "localhost") => .ok none
      | .ok host => .ok (some host)
      | .error e => .error e
  else if isSpecial scheme then
    if cs.isEmpty then .error .emptyHost else (Host.parse cs).map some
  else (Host.parseOpaque cs).map some

/-- An address from its host on. -/
def parseAuthority (scheme : String) (cs : List Char) : Except UrlError Url := do
  let special := isSpecial scheme
  let ends (c : Char) : Bool := c = '/' || endsPath c || special && c = '\\'
  let ((username, password), hostPort) ← splitCredentials (cs.takeWhile (!ends ·))
  let after := cs.dropWhile (!ends ·)
  let (hostChars, portChars) := splitHost false hostPort
  let host ← parseHost scheme hostChars
  let port ←
    match portChars with
    | [] => pure none
    | _ :: digits =>
      if hostChars.isEmpty then throw .emptyHost
      parsePort scheme digits
  if hostChars.isEmpty && !(username.isEmpty && password.isNone) then throw .emptyHost
  let (query, fragment) := splitTail special (after.dropWhile (!endsPath ·))
  pure
    { scheme, username, password, host, port, query, fragment
      path := .segments (absolutePath scheme (after.takeWhile (!endsPath ·))) }

/-! ## Relative addresses -/

/-- The base with another fragment. -/
def withFragment (base : Url) (cs : List Char) : Url :=
  { base with fragment := some (escape escapedInFragment cs) }

/-- The segments of a path. -/
def segmentsOf : UrlPath → List String
  | .segments list => list
  | .opaqueText _ => []

/-- An address relative to a base whose path is a list of segments. -/
def parseRelative (base : Url) (cs : List Char) : Except UrlError Url :=
  let special := base.special
  let isFile := base.scheme == "file"
  let isSlash (c : Char) : Bool := c = '/' || c = '\\'
  let pathChars := cs.takeWhile (!endsPath ·)
  let (query, fragment) := splitTail special (cs.dropWhile (!endsPath ·))
  let put (path : List String) : Url := { base with path := .segments path, query, fragment }
  match cs with
  | [] => .ok { base with fragment := none }
  | '#' :: rest => .ok (withFragment base rest)
  | '?' :: _ => .ok { base with query, fragment }
  | c :: d :: rest =>
    if isSlash c && isSlash d then
      let after := if c = '/' && d = '/' then rest else rest.dropWhile isSlash
      parseAuthority base.scheme after
    else if isSlash c then .ok (put (resolve isFile [] (splitPath special (pathChars.drop 1))))
    else
      .ok (put (resolve isFile (segmentsOf base.path).dropLast (splitPath special pathChars)))
  | [c] =>
    if isSlash c then .ok (put [""])
    else .ok (put (resolve isFile (segmentsOf base.path).dropLast (splitPath special pathChars)))

/-! ## Addresses of files -/

/-- The address of a file, after the scheme. -/
def parseFile (base : Option Url) (cs : List Char) : Except UrlError Url :=
  let pathChars := cs.takeWhile (!endsPath ·)
  let (query, fragment) := splitTail true (cs.dropWhile (!endsPath ·))
  let isSlash (c : Char) : Bool := c = '/' || c = '\\'
  let plain (host : Option Host) (path : List String) : Url :=
    { scheme := "file", username := "", password := none, host, port := none, query, fragment,
      path := .segments path }
  let emptyHost := some (Host.name "")
  match cs with
  | c :: d :: rest =>
    if isSlash c && isSlash d then
      let hostChars := rest.takeWhile fun c => !(isSlash c || endsPath c)
      let after := (rest.dropWhile fun c => !(isSlash c || endsPath c)).takeWhile (!endsPath ·)
      if isDriveLetter hostChars then
        .ok (plain emptyHost (resolve true [] (splitPath true (rest.takeWhile (!endsPath ·)))))
      else do
        let host ← parseHost "file" hostChars
        let path := absolutePath "file" after
        let drive := path.head?.any fun s => isDriveLetter s.toList
        pure (plain (if drive then emptyHost else some (host.getD (.name ""))) path)
    else if isSlash c then
      let host := (base.bind (·.host)).getD (.name "")
      .ok (plain (some host) (resolve true [] (splitPath true (pathChars.drop 1))))
    else
      match base with
      | some base => parseRelative base cs
      | none => .ok (plain emptyHost (resolve true [] (splitPath true pathChars)))
  | _ =>
    match base with
    | some base => parseRelative base cs
    | none => .ok (plain emptyHost (absolutePath "file" pathChars))

/-! ## Addresses -/

/-- An address after its scheme. -/
def parseScheme (base : Option Url) (scheme : String) (cs : List Char) : Except UrlError Url :=
  let isSlash (c : Char) : Bool := c = '/' || c = '\\'
  let sameScheme := base.filter (·.scheme == scheme)
  if scheme == "file" then parseFile sameScheme cs
  else if isSpecial scheme then
    match sameScheme with
    | some base =>
      if (cs.takeWhile isSlash).length < 2 then parseRelative base cs
      else parseAuthority scheme (cs.dropWhile isSlash)
    | none => parseAuthority scheme (cs.dropWhile isSlash)
  else
    let (query, fragment) := splitTail false (cs.dropWhile (!endsPath ·))
    let pathChars := cs.takeWhile (!endsPath ·)
    let bare (path : UrlPath) : Url :=
      { scheme, username := "", password := none, host := none, port := none, path, query, fragment }
    match cs with
    | '/' :: '/' :: rest => parseAuthority scheme rest
    | '/' :: _ => .ok (bare (.segments (resolve false [] (splitPath false (pathChars.drop 1)))))
    | _ => .ok (bare (.opaqueText (escape (fun _ => false) pathChars)))

/-- Reads an address, relative to another one if it has no scheme of its own. -/
def parseWith (base : Option Url) (text : String) : Except UrlError Url :=
  let cs := prepare text
  match splitScheme? cs with
  | some (scheme, rest) => parseScheme base scheme rest
  | none =>
    match base with
    | none => .error .noBase
    | some base =>
      match base.path, cs with
      | _, '#' :: rest => .ok (withFragment base rest)
      | .opaqueText _, _ => .error .opaqueBase
      | .segments _, _ =>
        if base.scheme == "file" then parseFile (some base) cs else parseRelative base cs

/-- Reads an address. -/
def parse (text : String) : Except UrlError Url := parseWith none text

/-- Reads an address relative to another one. -/
def join (base : Url) (text : String) : Except UrlError Url := parseWith (some base) text

end Credential.Url
