import Credential.Json.Basic
import Credential.Numeral
/-!
# Credential.Json.Parser — reading JSON text

`Json.parse` reads one document and nothing after it but blanks. What it refuses it refuses with
a cause and a place (`ParseError`): the line and the column, counted in bytes, of the last byte
looked at. Containers may nest 127 deep.

An integer that fits 64 bits stays an integer. All other numbers become doubles by one division or
multiplication by a power of ten (`ofParts`), which is how decimals are understood here; a number
beyond the largest double is refused.
-/

namespace Credential.Json

/-! ## Errors -/

/-- Why a text is no JSON document. -/
inductive Complaint where
  | endInValue
  | endInList
  | endInObject
  | endInString
  | expectedValue
  | expectedWord
  | expectedColon
  | expectedListSeparator
  | expectedObjectSeparator
  | keyNotString
  | trailingComma
  | trailingCharacters
  | controlCharacter
  | invalidEscape
  | invalidNumber
  | loneSurrogate
  | unfinishedSurrogate
  | numberOutOfRange
  | tooDeep
  deriving DecidableEq

/-- The wording of a complaint. -/
def Complaint.text : Complaint → String
  | .endInValue => "EOF while parsing a value"
  | .endInList => "EOF while parsing a list"
  | .endInObject => "EOF while parsing an object"
  | .endInString => "EOF while parsing a string"
  | .expectedValue => "expected value"
  | .expectedWord => "expected ident"
  | .expectedColon => "expected `:`"
  | .expectedListSeparator => "expected `,` or `]`"
  | .expectedObjectSeparator => "expected `,` or `\x7d`"
  | .keyNotString => "key must be a string"
  | .trailingComma => "trailing comma"
  | .trailingCharacters => "trailing characters"
  | .controlCharacter => "control character (\\u0000-\\u001F) found while parsing a string"
  | .invalidEscape => "invalid escape"
  | .invalidNumber => "invalid number"
  | .loneSurrogate => "lone leading surrogate in hex escape"
  | .unfinishedSurrogate => "unexpected end of hex escape"
  | .numberOutOfRange => "number out of range"
  | .tooDeep => "recursion limit exceeded"

/-- A complaint with its line and column. -/
structure ParseError where
  complaint : Complaint
  line : Nat
  column : Nat
  deriving DecidableEq

/-- The error as shown. -/
def ParseError.message (e : ParseError) : String :=
  e.complaint.text ++ " at line " ++ Nat.repr e.line ++ " column " ++ Nat.repr e.column

namespace Parser

/-- A complaint and the number of bytes not yet looked at. -/
structure Failure where
  complaint : Complaint
  left : Nat

/-- The number of bytes of a text. -/
def byteCount (cs : List Char) : Nat := cs.foldl (fun n c => n + c.utf8Size) 0

/-- Fails in front of the rest of the text. -/
def failBefore {α : Type} (complaint : Complaint) (rest : List Char) : Except Failure α :=
  .error ⟨complaint, byteCount rest⟩

/-- Fails on the first byte of the rest of the text. -/
def failOn {α : Type} (complaint : Complaint) (rest : List Char) : Except Failure α :=
  .error ⟨complaint, byteCount rest - 1⟩

/-! ## Blanks and words -/

/-- The four characters allowed between tokens. -/
def isBlank (c : Char) : Bool := c = ' ' || c = '\t' || c = '\n' || c = '\r'

/-- The text after its leading blanks. -/
def skipBlanks (cs : List Char) : List Char := cs.dropWhile isBlank

/-- The text after the letters of a word. -/
def word : List Char → List Char → Except Failure (List Char)
  | [], cs => .ok cs
  | _ :: _, [] => failBefore .endInValue []
  | w :: ws, c :: cs => if c = w then word ws cs else failOn .expectedWord (c :: cs)

/-! ## Numbers -/

/-- The largest power of ten that is a double, as a decimal exponent. -/
def maxPowerOfTen : Nat := 308

/-- Divides by the greatest powers of ten until the exponent is in range. -/
def scaleDown : Nat → Double → Int → Option Double
  | 0, f, _ => some f
  | steps + 1, f, exponent =>
    if exponent.natAbs ≤ maxPowerOfTen then
      let power := Double.ofInt (Nat.pow 10 exponent.natAbs)
      if 0 ≤ exponent then
        let product := f.mul power
        if product.isFinite then some product else none
      else some (f.div power)
    else if f.isZero then some f
    else if 0 ≤ exponent then none
    else scaleDown steps (f.div (.ofInt (Nat.pow 10 maxPowerOfTen))) (exponent + maxPowerOfTen)

/-- The double for `± significand · 10^exponent`: the significand as a double, times or divided by
the power of ten as a double. None if it is too large. -/
def ofParts (positive : Bool) (significand : Nat) (exponent : Int) : Option Double :=
  (scaleDown (exponent.natAbs / maxPowerOfTen + 1) (.ofInt significand) exponent).map
    fun f => if positive then f else f.neg

/-- The number of some parts, with the rest of the text. -/
def finishParts (positive : Bool) (significand : Nat) (exponent : Int) (rest : List Char) :
    Except Failure (Number × List Char) :=
  match ofParts positive significand exponent with
  | some d => .ok (.double d, rest)
  | none => failBefore .numberOutOfRange rest

/-- The largest significand kept exactly. -/
def maxSignificand : Nat := Nat.pow 2 64 - 1

/-- The largest exponent kept exactly. -/
def maxExponent : Nat := Nat.pow 2 31 - 1

/-- Digits of an exponent after the first. -/
def exponentDigits (positive expPositive : Bool) (significand : Nat) (start : Int) :
    Nat → List Char → Except Failure (Number × List Char)
  | exponent, c :: cs =>
    if c.isDigit then
      let next := exponent * 10 + Numeral.decimalDigit c
      if maxExponent < next then
        if significand ≠ 0 ∧ expPositive then failBefore .numberOutOfRange cs
        else
          let zero := Double.ofInt 0
          .ok (.double (if positive then zero else zero.neg), cs.dropWhile Char.isDigit)
      else exponentDigits positive expPositive significand start next cs
    else
      finishParts positive significand
        (if expPositive then start + exponent else start - exponent) (c :: cs)
  | exponent, [] =>
    finishParts positive significand
      (if expPositive then start + exponent else start - exponent) []

/-- An exponent, after its letter. -/
def exponentPart (positive : Bool) (significand : Nat) (start : Int) (cs : List Char) :
    Except Failure (Number × List Char) :=
  let (expPositive, cs) := match cs with
    | '+' :: rest => (true, rest)
    | '-' :: rest => (false, rest)
    | _ => (true, cs)
  match cs with
  | [] => failBefore .endInValue []
  | c :: rest =>
    if c.isDigit then exponentDigits positive expPositive significand start (Numeral.decimalDigit c) rest
    else failOn .invalidNumber (c :: rest)

/-- Ends a number or goes on to its exponent. -/
def afterDigits (positive : Bool) (significand : Nat) (exponent : Int) (cs : List Char) :
    Except Failure (Number × List Char) :=
  match cs with
  | 'e' :: rest => exponentPart positive significand exponent rest
  | 'E' :: rest => exponentPart positive significand exponent rest
  | _ => finishParts positive significand exponent cs

/-- The fraction of a number, after its point. Digits that do not fit the significand are
dropped. -/
def fractionDigits (positive : Bool) (before : Int) :
    Nat → Nat → List Char → Except Failure (Number × List Char)
  | significand, places, c :: cs =>
    if c.isDigit then
      let next := significand * 10 + Numeral.decimalDigit c
      if maxSignificand < next then
        afterDigits positive significand (before - places) (cs.dropWhile Char.isDigit)
      else fractionDigits positive before next (places + 1) cs
    else if places = 0 then failOn .invalidNumber (c :: cs)
    else afterDigits positive significand (before - places) (c :: cs)
  | significand, places, [] =>
    if places = 0 then failOn .endInValue []
    else finishParts positive significand (before - places) []

/-- The rest of an integer that has outgrown the significand: each digit counts as a factor of
ten. -/
def longInteger (positive : Bool) (significand : Nat) :
    Nat → List Char → Except Failure (Number × List Char)
  | dropped, c :: cs =>
    if c.isDigit then longInteger positive significand (dropped + 1) cs
    else if c = '.' then fractionDigits positive dropped significand 0 cs
    else afterDigits positive significand dropped (c :: cs)
  | dropped, [] => finishParts positive significand dropped []

/-- The number after its integer digits. -/
def afterInteger (positive : Bool) (significand : Nat) (cs : List Char) :
    Except Failure (Number × List Char) :=
  match cs with
  | '.' :: rest => fractionDigits positive 0 significand 0 rest
  | 'e' :: rest => exponentPart positive significand 0 rest
  | 'E' :: rest => exponentPart positive significand 0 rest
  | _ =>
    if positive then .ok (.integer significand, cs)
    else if significand = 0 || Nat.pow 2 63 < significand then
      .ok (.double (Double.ofInt significand).neg, cs)
    else .ok (.integer (-significand), cs)

/-- Integer digits after the first. -/
def integerDigits (positive : Bool) : Nat → List Char → Except Failure (Number × List Char)
  | significand, c :: cs =>
    if c.isDigit then
      let next := significand * 10 + Numeral.decimalDigit c
      if maxSignificand < next then longInteger positive significand 1 cs
      else integerDigits positive next cs
    else afterInteger positive significand (c :: cs)
  | significand, [] => afterInteger positive significand []

/-- A number, after its sign. -/
def number (positive : Bool) : List Char → Except Failure (Number × List Char)
  | [] => failBefore .endInValue []
  | '0' :: rest =>
    match rest with
    | c :: _ => if c.isDigit then failOn .invalidNumber rest else afterInteger positive 0 rest
    | [] => afterInteger positive 0 rest
  | c :: rest =>
    if c.isDigit then integerDigits positive (Numeral.decimalDigit c) rest
    else failOn .invalidNumber (c :: rest)

/-! ## Strings -/

/-- Four hexadecimal digits. -/
def hexEscape (cs : List Char) : Except Failure (Nat × List Char) :=
  if byteCount (cs.take 4) < 4 then failBefore .endInString []
  else
    let invalid : Except Failure (Nat × List Char) :=
      .error ⟨.invalidEscape, byteCount cs - 4⟩
    match cs with
    | a :: b :: c :: d :: rest =>
      match Numeral.value? 16 [a, b, c, d] with
      | some n => .ok (n, rest)
      | none => invalid
    | _ => invalid

/-- One letter that must follow a leading surrogate. -/
def expectAfterSurrogate (letter : Char) : List Char → Except Failure (List Char)
  | [] => failBefore .endInString []
  | c :: rest =>
    if c = letter then .ok rest else failOn .unfinishedSurrogate (c :: rest)

/-- A character written by number, after the letter `u`: a pair of surrogates is one character. -/
def unicodeEscape (cs : List Char) : Except Failure (Char × List Char) := do
  let (n, rest) ← hexEscape cs
  if 0xDC00 ≤ n ∧ n ≤ 0xDFFF then failBefore .loneSurrogate rest
  else if n < 0xD800 ∨ 0xDBFF < n then pure (Char.ofNat n, rest)
  else
    let rest ← expectAfterSurrogate '\\' rest
    let rest ← expectAfterSurrogate 'u' rest
    let (low, rest) ← hexEscape rest
    if low < 0xDC00 ∨ 0xDFFF < low then failBefore .loneSurrogate rest
    else pure (Char.ofNat ((n - 0xD800) * 0x400 + (low - 0xDC00) + 0x10000), rest)

/-- The character after a backslash. -/
def escape : List Char → Except Failure (Char × List Char)
  | [] => failBefore .endInString []
  | c :: rest =>
    if c = '"' ∨ c = '\\' ∨ c = '/' then .ok (c, rest)
    else if c = 'b' then .ok (Char.ofNat 8, rest)
    else if c = 'f' then .ok (Char.ofNat 12, rest)
    else if c = 'n' then .ok ('\n', rest)
    else if c = 'r' then .ok ('\r', rest)
    else if c = 't' then .ok ('\t', rest)
    else if c = 'u' then unicodeEscape rest
    else failOn .invalidEscape (c :: rest)

/-- The characters of a string up to its closing quote, collected in reverse. The first argument
bounds the number of characters. -/
def stringBody : Nat → List Char → List Char → Except Failure (String × List Char)
  | 0, _, rest => failBefore .endInString rest
  | _ + 1, _, [] => failBefore .endInString []
  | fuel + 1, acc, c :: rest =>
    if c = '"' then .ok (String.ofList acc.reverse, rest)
    else if c = '\\' then
      match escape rest with
      | .ok (e, rest) => stringBody fuel (e :: acc) rest
      | .error f => .error f
    else if c.toNat < 32 then failOn .controlCharacter (c :: rest)
    else stringBody fuel (c :: acc) rest

/-- A string, after its opening quote. -/
def stringAfterQuote (cs : List Char) : Except Failure (String × List Char) :=
  stringBody (cs.length + 1) [] cs

/-! ## Documents -/

mutual

/-- One value, after blanks. The first argument bounds the number of steps, the second counts the
containers that may still be opened. -/
def value : Nat → Nat → List Char → Except Failure (Json × List Char)
  | 0, _, cs => failOn .tooDeep cs
  | fuel + 1, room, cs =>
    match skipBlanks cs with
    | [] => failOn .endInValue []
    | 'n' :: rest => (word ['u', 'l', 'l'] rest).map (.null, ·)
    | 't' :: rest => (word ['r', 'u', 'e'] rest).map (.bool true, ·)
    | 'f' :: rest => (word ['a', 'l', 's', 'e'] rest).map (.bool false, ·)
    | '"' :: rest => (stringAfterQuote rest).map fun (s, rest) => (.string s, rest)
    | '-' :: rest => (number false rest).map fun (n, rest) => (.number n, rest)
    | '[' :: rest =>
      match room with
      | 0 => failOn .tooDeep ('[' :: rest)
      | room + 1 => items fuel room true [] rest
    | '\x7b' :: rest =>
      match room with
      | 0 => failOn .tooDeep ('\x7b' :: rest)
      | room + 1 => members fuel room true [] rest
    | c :: rest =>
      if c.isDigit then (number true (c :: rest)).map fun (n, rest) => (.number n, rest)
      else failOn .expectedValue (c :: rest)

/-- The items of an array up to its closing bracket, collected in reverse. -/
def items : Nat → Nat → Bool → List Json → List Char → Except Failure (Json × List Char)
  | 0, _, _, _, cs => failOn .tooDeep cs
  | fuel + 1, room, first, acc, cs =>
    match skipBlanks cs with
    | [] => failOn .endInList []
    | ']' :: rest => .ok (.array acc.reverse, rest)
    | c :: rest =>
      let start : Except Failure (List Char) :=
        if first then .ok (c :: rest)
        else if c = ',' then
          match skipBlanks rest with
          | [] => failOn .endInValue []
          | ']' :: rest => failOn .trailingComma (']' :: rest)
          | rest => .ok rest
        else failOn .expectedListSeparator (c :: rest)
      match start with
      | .error f => .error f
      | .ok cs =>
        match value fuel room cs with
        | .error f => .error f
        | .ok (v, rest) => items fuel room false (v :: acc) rest

/-- The members of an object up to its closing brace; a repeated key overwrites. -/
def members : Nat → Nat → Bool → List (String × Json) → List Char →
    Except Failure (Json × List Char)
  | 0, _, _, _, cs => failOn .tooDeep cs
  | fuel + 1, room, first, acc, cs =>
    match skipBlanks cs with
    | [] => failOn .endInObject []
    | '\x7d' :: rest => .ok (.object acc, rest)
    | c :: rest =>
      let key : Except Failure (List Char) :=
        if first then
          if c = '"' then .ok rest else failOn .keyNotString (c :: rest)
        else if c = ',' then
          match skipBlanks rest with
          | [] => failOn .endInValue []
          | '"' :: rest => .ok rest
          | '\x7d' :: rest => failOn .trailingComma ('\x7d' :: rest)
          | rest => failOn .keyNotString rest
        else failOn .expectedObjectSeparator (c :: rest)
      match key with
      | .error f => .error f
      | .ok cs =>
        match stringAfterQuote cs with
        | .error f => .error f
        | .ok (k, rest) =>
          match skipBlanks rest with
          | [] => failOn .endInObject []
          | ':' :: rest =>
            match value fuel room rest with
            | .error f => .error f
            | .ok (v, rest) => members fuel room false (put k v acc) rest
          | rest => failOn .expectedColon rest

end

end Parser

/-- The deepest nesting allowed. -/
def maxDepth : Nat := 127

/-- The line and column of the place after some bytes of a text. A column counts the bytes since
the last line break. -/
def position : List Char → Nat → Nat → Nat → Nat × Nat
  | [], line, column, bytes => (line, column + bytes)
  | c :: cs, line, column, bytes =>
    if bytes < c.utf8Size then (line, column + bytes)
    else if c = '\n' then position cs (line + 1) 0 (bytes - c.utf8Size)
    else position cs line (column + c.utf8Size) (bytes - c.utf8Size)

/-- Reads a text as one document. -/
def parse (text : String) : Except ParseError Json :=
  let cs := text.toList
  let outcome : Except Parser.Failure Json := do
    let (j, rest) ← Parser.value (cs.length + 1) maxDepth cs
    match Parser.skipBlanks rest with
    | [] => pure j
    | rest => Parser.failOn .trailingCharacters rest
  match outcome with
  | .ok j => .ok j
  | .error f =>
    let (line, column) := position cs 1 0 (Parser.byteCount cs - f.left)
    .error ⟨f.complaint, line, column⟩

end Credential.Json
