import Credential.Ip
import Credential.Validation.Pattern
/-!
# Credential.Validation.StringFormat — the formats of strings

Calendar dates and points in time follow RFC 3339, mail addresses RFC 5322 without comments, and
addresses of resources RFC 3986. `StringFormat.test?` gives the test of a format by its name; a format
without test accepts everything.
-/

namespace Credential.Validation.StringFormat

/-! ## Dates and times -/

/-- The value of a numeral of exactly `count` digits at the start of some characters, and the rest. -/
def digits? (count : Nat) (cs : List Char) : Option (Nat × List Char) :=
  let ds := cs.take count
  if ds.length = count && ds.all Char.isDigit then
    some (Numeral.decimal ds, cs.drop count)
  else none

/-- The characters after a given one. -/
def after? (c : Char) : List Char → Option (List Char)
  | d :: rest => if c = d then some rest else none
  | [] => none

/-- Whether a year has a leap day. -/
def isLeapYear (year : Nat) : Bool := year % 4 = 0 && (year % 100 ≠ 0 || year % 400 = 0)

/-- The number of days in a month; none in a month that there is not. -/
def daysIn (year month : Nat) : Nat :=
  if month = 2 then (if isLeapYear year then 29 else 28)
  else if [4, 6, 9, 11].contains month then 30
  else if 1 ≤ month && month ≤ 12 then 31
  else 0

/-- A date such as `2020-02-29`. -/
def isDateChars (cs : List Char) : Bool :=
  let read : Option Bool := do
    let (year, cs) ← digits? 4 cs
    let (month, cs) ← digits? 2 (← after? '-' cs)
    let (day, cs) ← digits? 2 (← after? '-' cs)
    pure (cs.isEmpty && 1 ≤ day && day ≤ daysIn year month)
  read.getD false

/-- The fraction of a second, if one is written, and the rest. -/
def fraction? : List Char → Option (List Char)
  | '.' :: cs => if (cs.takeWhile Char.isDigit).isEmpty then none else some (cs.dropWhile Char.isDigit)
  | cs => some cs

/-- The distance from universal time in minutes, read up to the end. -/
def offset? : List Char → Option Int
  | ['Z'] => some 0
  | ['z'] => some 0
  | sign :: cs => do
    let (hours, cs) ← digits? 2 cs
    let (minutes, cs) ← digits? 2 (← after? ':' cs)
    if !cs.isEmpty || 23 < hours || 59 < minutes then none
    else if sign = '+' then pure (60 * hours + minutes)
    else if sign = '-' then pure (-(60 * hours + minutes))
    else none
  | [] => none

/-- A time with its distance from universal time, such as `23:59:60Z`. A minute has a second
number 60 only at the end of a day of universal time. -/
def isTimeChars (cs : List Char) : Bool :=
  let read : Option Bool := do
    let (hour, cs) ← digits? 2 cs
    let (minute, cs) ← digits? 2 (← after? ':' cs)
    let (second, cs) ← digits? 2 (← after? ':' cs)
    let offset ← offset? (← fraction? cs)
    let universal := ((60 * hour + minute : Nat) : Int) - offset
    pure (hour ≤ 23 && minute ≤ 59 && second ≤ 60
      && (second < 60 || universal.emod 1440 = 1439))
  read.getD false

/-- A date. -/
def isDate (text : String) : Bool := isDateChars text.toList

/-- A date and a time parted by the letter T. -/
def isDateTime (text : String) : Bool :=
  let cs := text.toList
  let isMark (c : Char) : Bool := c = 'T' || c = 't'
  isDateChars (cs.takeWhile (!isMark ·)) && isTimeChars ((cs.dropWhile (!isMark ·)).drop 1)

/-! ## Mail addresses -/

/-- The number of bytes of some characters. -/
def byteLength (cs : List Char) : Nat := cs.foldl (fun n c => n + c.utf8Size) 0

/-- The characters before and after the last place of a given one. -/
def splitLast? (mark : Char) (cs : List Char) : Option (List Char × List Char) :=
  if cs.contains mark then
    let back := cs.reverse
    some ((back.dropWhile (· ≠ mark)).drop 1 |>.reverse, (back.takeWhile (· ≠ mark)).reverse)
  else none

/-- A character of an unquoted word of a mail address. -/
def isAtomChar (c : Char) : Bool :=
  c.isAlphanum || "!#$%&'*+-/=?^_`|~".toList.contains c || c = '\x7b' || c = '\x7d' || 128 ≤ c.toNat

/-- Words parted by dots. -/
def isDotAtom (cs : List Char) : Bool :=
  (Text.splitAt '.' cs).all fun word => !word.isEmpty && word.all isAtomChar

/-- The inside of a quoted name: printable characters, quote and backslash after a backslash. -/
def isQuotedContent : List Char → Bool
  | '\\' :: c :: rest => (c = ' ' || c = '\t' || 33 ≤ c.toNat && c.toNat ≠ 127) && isQuotedContent rest
  | c :: rest =>
    (c = ' ' || c = '\t' || 33 ≤ c.toNat && c.toNat ≠ 127 && c ≠ '"' && c ≠ '\\')
      && isQuotedContent rest
  | [] => true

/-- The name before the at sign. -/
def isLocalPart (cs : List Char) : Bool :=
  !cs.isEmpty && byteLength cs ≤ 64 &&
    if cs.head? = some '"' && cs.getLast? = some '"' then
      2 < byteLength cs && isQuotedContent (cs.drop 1).dropLast
    else isDotAtom cs

/-- The name of a host: labels of letters, digits and inner hyphens. -/
def isHostName (cs : List Char) : Bool :=
  byteLength cs ≤ 253 && (Text.splitAt '.' cs).all fun label =>
    !label.isEmpty && label.length ≤ 63 && label.all (fun c => c.isAlphanum || c = '-')
      && label.head? != some '-' && label.getLast? != some '-'

/-- The place after the at sign: the name of a host or an address in brackets. -/
def isMailHost (cs : List Char) : Bool :=
  match cs with
  | '[' :: rest =>
    if rest.getLast? != some ']' then false
    else
      match rest.dropLast with
      | 'I' :: 'P' :: 'v' :: '6' :: ':' :: address => (Ip.parse6? address).isSome
      | address => (Ip.parse4? address).isSome
  | _ => isHostName cs

/-- A mail address. -/
def isEmail (text : String) : Bool :=
  match splitLast? '@' text.toList with
  | some (name, host) => isLocalPart name && isMailHost host
  | none => false

/-! ## Addresses of resources -/

/-- A letter, digit or mark that stands for itself everywhere in an address. -/
def isUnreserved (c : Char) : Bool := c.isAlphanum || "-._~".toList.contains c

/-- A mark that may have a meaning of its own inside a part. -/
def isSubDelimiter (c : Char) : Bool := "!$&'()*+,;=".toList.contains c

/-- Characters of a class, or bytes written with a percent sign. -/
def isEncoded (allowed : Char → Bool) : List Char → Bool
  | '%' :: a :: b :: rest => (Numeral.value? 16 [a, b]).isSome && isEncoded allowed rest
  | c :: rest => allowed c && isEncoded allowed rest
  | [] => true

/-- A character of a segment of a path. -/
def isPathChar (c : Char) : Bool := isUnreserved c || isSubDelimiter c || c = ':' || c = '@'

/-- The host of an address, with its port. -/
def isHostPort (cs : List Char) : Bool :=
  match cs with
  | '[' :: rest =>
    let port := (rest.dropWhile (· ≠ ']')).drop 1
    rest.contains ']' && (Ip.parse6? (rest.takeWhile (· ≠ ']'))).isSome
      && (port.isEmpty || port.head? = some ':' && (port.drop 1).all Char.isDigit)
  | _ =>
    let port := (cs.dropWhile (· ≠ ':')).drop 1
    isEncoded (fun c => isUnreserved c || isSubDelimiter c) (cs.takeWhile (· ≠ ':'))
      && port.all Char.isDigit

/-- The part between the double slash and the path. -/
def isAuthority (cs : List Char) : Bool :=
  match splitLast? '@' cs with
  | some (user, host) =>
    isEncoded (fun c => isUnreserved c || isSubDelimiter c || c = ':') user && isHostPort host
  | none => isHostPort cs

/-- The part between the scheme and the query. -/
def isHierarchy : List Char → Bool
  | '/' :: '/' :: rest =>
    isAuthority (rest.takeWhile (· ≠ '/'))
      && isEncoded (fun c => isPathChar c || c = '/') (rest.dropWhile (· ≠ '/'))
  | cs => isEncoded (fun c => isPathChar c || c = '/') cs

/-- An address with a scheme. -/
def isUri (text : String) : Bool :=
  let cs := text.toList
  let scheme := cs.takeWhile (· ≠ ':')
  let rest := (cs.dropWhile (· ≠ ':')).drop 1
  let main := rest.takeWhile (· ≠ '#')
  let fragment := (rest.dropWhile (· ≠ '#')).drop 1
  let query := (main.dropWhile (· ≠ '?')).drop 1
  let isQueryChar (c : Char) : Bool := isPathChar c || c = '/' || c = '?'
  cs.contains ':' && scheme.head?.any Char.isAlpha
    && scheme.all (fun c => c.isAlphanum || "+-.".toList.contains c)
    && isHierarchy (main.takeWhile (· ≠ '?')) && isEncoded isQueryChar query
    && isEncoded isQueryChar fragment

/-! ## Formats by name -/

/-- The test of a format, if it has one. -/
def test? (name : String) : Option (String → Bool) :=
  match name with
  | "date" => some isDate
  | "date-time" => some isDateTime
  | "email" => some isEmail
  | "uri" => some isUri
  | "regex" => some fun text => (Pattern.parse? text).isSome
  | _ => none

end Credential.Validation.StringFormat
