import Credential.Ip
import Credential.Percent
import Credential.Url.Punycode
/-!
# Credential.Url.Host — hosts in addresses

The host of a web address is a name or an IP address. A name is written in ASCII and lower case, and a
name whose last label is a number has to be an address of version 4, whose numbers may also be
octal, hexadecimal or fewer than four. Hosts of other schemes are kept as they are.
-/

namespace Credential

/-- Why a text is no address. -/
inductive UrlError where
  | emptyHost
  | internationalName
  | invalidPort
  | invalidIPv4
  | invalidIPv6
  | invalidHostCharacter
  | noBase
  | opaqueBase
  deriving DecidableEq

/-- The error as shown. -/
def UrlError.message : UrlError → String
  | .emptyHost => "empty host"
  | .internationalName => "invalid international domain name"
  | .invalidPort => "invalid port number"
  | .invalidIPv4 => "invalid IPv4 address"
  | .invalidIPv6 => "invalid IPv6 address"
  | .invalidHostCharacter => "invalid domain character"
  | .noBase => "relative URL without a base"
  | .opaqueBase => "relative URL with a cannot-be-a-base base"

/-- The host of an address. -/
inductive Host where
  | name (text : String)
  | ipv4 (number : Nat)
  | ipv6 (groups : List Nat)
  deriving DecidableEq, Inhabited

namespace Host

/-- The text of a host. -/
def text : Host → String
  | .name text => text
  | .ipv4 number => Ip.text4 number
  | .ipv6 groups => "[" ++ Ip.text6 groups ++ "]"

/-- A host of version 6, written in brackets. -/
def bracketed (cs : List Char) : Except UrlError Host :=
  if cs.getLast? = some ']' then
    match Ip.parse6? (cs.drop 1).dropLast with
    | some groups => .ok (.ipv6 groups)
    | none => .error .invalidIPv6
  else .error .invalidIPv6

/-! ## Hosts of other schemes -/

/-- The characters that no host contains. -/
def isForbidden (c : Char) : Bool :=
  c.toNat = 0 || "\t\n\r #/:<>?@[\\]^|".toList.contains c

/-- A host that is kept as it is. -/
def parseOpaque (cs : List Char) : Except UrlError Host :=
  if cs.head? = some '[' then bracketed cs
  else if cs.any isForbidden then .error .invalidHostCharacter
  else .ok (.name (String.ofList (Percent.encode (fun _ => false) cs)))

/-! ## Names -/

/-- The characters that no name contains. -/
def isForbiddenInName (c : Char) : Bool := c.toNat < 32 || c = '%' || c.toNat = 127 || isForbidden c

/-- The lower case of a letter of the Latin, Greek and Cyrillic alphabets. -/
def lowercase (c : Char) : Char :=
  let n := c.toNat
  let up (d : Nat) : Char := Char.ofNat (n + d)
  if c.isUpper then c.toLower
  else if 0xc0 ≤ n && n ≤ 0xde && n ≠ 0xd7 then up 32
  else if 0x100 ≤ n && n ≤ 0x137 && n % 2 = 0 && n ≠ 0x130 then up 1
  else if 0x139 ≤ n && n ≤ 0x148 && n % 2 = 1 then up 1
  else if 0x14a ≤ n && n ≤ 0x177 && n % 2 = 0 then up 1
  else if 0x391 ≤ n && n ≤ 0x3a9 && n ≠ 0x3a2 then up 32
  else if 0x410 ≤ n && n ≤ 0x42f then up 32
  else if 0x400 ≤ n && n ≤ 0x40f then up 80
  else c

/-- The ranges of code points that do not count in a name. -/
def ignoredRanges : List (Nat × Nat) :=
  [(0xad, 0xad), (0x200b, 0x200b), (0x2060, 0x2060), (0xfe00, 0xfe0f), (0xfeff, 0xfeff)]

/-- What a character of a name stands for: letters are in lower case, a wide letter is as good as a usual
one, and so are the dots of other scripts. -/
def plainForm (c : Char) : List Char :=
  let n := c.toNat
  if ignoredRanges.any fun r => r.1 ≤ n && n ≤ r.2 then []
  else if n = 0x3002 || n = 0xff0e || n = 0xff61 then ['.']
  else if 0xff01 ≤ n && n ≤ 0xff5e then [lowercase (Char.ofNat (n - 0xfee0))]
  else [lowercase c]

/-- Whether a label may have been written in ASCII: it has a character that needs it, and none that
stands for others or for nothing seen. -/
def isEncodable (label : List Char) : Bool :=
  label.any (128 ≤ ·.toNat) && label.all fun c => plainForm c = [c] && !(128 ≤ c.toNat && c.toNat < 160)

/-- A label in ASCII. -/
def labelToAscii (label : List Char) : Except UrlError (List Char) :=
  match label with
  | 'x' :: 'n' :: '-' :: '-' :: rest =>
    if (Punycode.decode? rest).any isEncodable then .ok label else .error .internationalName
  | _ =>
    if label.all (·.toNat < 128) then .ok label
    else .ok ("xn--".toList ++ Punycode.encode label)

/-- A name in ASCII and lower case. -/
def nameToAscii (cs : List Char) : Except UrlError (List Char) := do
  let labels ← (Text.splitAt '.' (cs.flatMap plainForm)).mapM labelToAscii
  let name := ['.'].intercalate labels
  if name.any isForbiddenInName then throw .internationalName
  pure name

/-! ## Numbers as addresses of version 4 -/

/-- A number in decimal, octal or hexadecimal; the base is told by what it starts with. A base without
digits after it is zero. -/
def number? : List Char → Option Nat
  | [] => none
  | '0' :: 'x' :: rest => Numeral.value? 16 rest
  | '0' :: 'X' :: rest => Numeral.value? 16 rest
  | '0' :: rest => Numeral.value? 8 rest
  | cs => Numeral.value? 10 cs

/-- The parts of a name; a dot at the end closes no further one. -/
def parts (cs : List Char) : List (List Char) :=
  let parts := Text.splitAt '.' cs
  if 1 < parts.length && parts.getLast? = some [] then parts.dropLast else parts

/-- Whether the last part of a name is a number. -/
def endsInNumber (cs : List Char) : Bool :=
  match (parts cs).getLast? with
  | some last => !last.isEmpty && (last.all Char.isDigit || (number? last).isSome)
  | none => false

/-- The address of some numbers: all but the last one byte each, the last as many as are left. -/
def address? : List Nat → Nat → Option Nat
  | [], _ => none
  | [last], left => if last < Nat.pow 256 left then some last else none
  | n :: rest, left =>
    if n < 256 then (address? rest (left - 1)).map (n * Nat.pow 256 (left - 1) + ·) else none

/-- The address of version 4 of a name that ends in a number. -/
def parseNumeric (cs : List Char) : Except UrlError Host :=
  let found := do
    let numbers ← (parts cs).mapM number?
    if numbers.length ≤ 4 then address? numbers 4 else none
  match found with
  | some n => .ok (.ipv4 n)
  | none => .error .invalidIPv4

/-! ## Hosts of web addresses -/

/-- The host of a web address. -/
def parse (cs : List Char) : Except UrlError Host :=
  if cs.head? = some '[' then bracketed cs
  else
    match Percent.decode? cs with
    | none => .error .internationalName
    | some text => do
      let name ← nameToAscii text.toList
      if name.isEmpty then .error .emptyHost
      else if endsInNumber name then parseNumeric name
      else pure (.name (String.ofList name))

end Host

end Credential
