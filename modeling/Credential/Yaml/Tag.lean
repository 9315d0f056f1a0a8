import Credential.Yaml.Cursor
/-!
# Credential.Yaml.Tag — tags, names and directives

A tag is a handle and a suffix; the handle stands for the start of an address, which a directive may
change. A tag in angle brackets is an address as it is, and has an empty handle. Bytes of a suffix may be
written with a percent sign.
-/

namespace Credential.Yaml

/-! ## Handles and addresses -/

/-- Reads a handle: a word after an exclamation mark, closed by another one. In a directive it has to be
closed, unless it is a lone exclamation mark. -/
def readHandle (inDirective : Bool) (began : Mark) (c : Cursor) :
    Except SyntaxError (String × Cursor) :=
  if !c.isAt '!' then
    complain c .noTagMark (if inDirective then .tagDirectiveHandle else .tag) began
  else
    let word := (c.rest.drop 1).takeWhile isWordChar
    let c := c.skip (1 + word.length)
    if c.isAt '!' then .ok (String.ofList ('!' :: word ++ ['!']), c.skip 1)
    else if inDirective && !word.isEmpty then complain c .noTagMark .tagDirectiveHandleEnd began
    else .ok (String.ofList ('!' :: word), c)

/-- A character of an address. Inside of angle brackets there are some more. -/
def isAddressChar (verbatim : Bool) (c : Char) : Bool :=
  isWordChar c || ";/?:@&=+$.%!~*'()".toList.contains c || verbatim && ",[]".toList.contains c

/-- The value of a byte behind a percent sign. -/
def octet? (c : Cursor) : Option Nat :=
  match c.rest with
  | '%' :: a :: b :: _ => Numeral.value? 16 [a, b]
  | _ => none

/-- The number of bytes of a character, told by the first, and what the first contributes. -/
def leadingOctet? (n : Nat) : Option (Nat × Nat) :=
  if n < 0x80 then some (1, n)
  else if 0xc0 ≤ n && n < 0xe0 then some (2, n - 0xc0)
  else if 0xe0 ≤ n && n < 0xf0 then some (3, n - 0xe0)
  else if 0xf0 ≤ n && n < 0xf8 then some (4, n - 0xf0)
  else none

/-- Reads the further bytes of a character. -/
def readOctets (reading : Reading) (began : Mark) :
    Nat → Nat → Cursor → Except SyntaxError (Nat × Cursor)
  | 0, value, c => .ok (value, c)
  | count + 1, value, c =>
    match octet? c with
    | none => complain c .badOctet reading began
    | some n =>
      if 0x80 ≤ n && n < 0xc0 then readOctets reading began count (64 * value + (n - 0x80)) (c.skip 3)
      else complain c .badTrailingOctet reading began

/-- Reads a character written with percent signs. -/
def readOctetChar (reading : Reading) (began : Mark) (c : Cursor) :
    Except SyntaxError (Char × Cursor) :=
  match octet? c with
  | none => complain c .badOctet reading began
  | some n =>
    match leadingOctet? n with
    | none => complain c .badLeadingOctet reading began
    | some (width, value) =>
      (readOctets reading began (width - 1) value (c.skip 3)).map fun (n, c) => (Char.ofNat n, c)

/-- Reads on in an address. -/
def readAddressFrom (verbatim : Bool) (reading : Reading) (began : Mark) :
    Nat → List Char → Cursor → Except SyntaxError (List Char × Cursor)
  | 0, text, c => .ok (text, c)
  | fuel + 1, text, c =>
    match c.peek? with
    | none => .ok (text, c)
    | some d =>
      if d = '%' then
        match readOctetChar reading began c with
        | .ok (e, c) => readAddressFrom verbatim reading began fuel (text ++ [e]) c
        | .error e => .error e
      else if isAddressChar verbatim d then
        readAddressFrom verbatim reading began fuel (text ++ [d]) (c.skip 1)
      else .ok (text, c)

/-- Reads an address after the start `head` of it, which may be empty only if more follows. -/
def readAddress (verbatim inDirective : Bool) (head : String) (began : Mark) (c : Cursor) :
    Except SyntaxError (String × Cursor) := do
  let reading : Reading := if inDirective then .tagDirectiveAddress else .tagAddress
  let (text, after) ← readAddressFrom verbatim reading began (c.rest.length + 1) [] c
  if head.isEmpty && text.isEmpty then complain after .noTagAddress reading began
  pure (String.ofList (head.toList.drop 1 ++ text), after)

/-! ## Tags -/

/-- Reads a tag. -/
def readTag (inFlow : Bool) (c : Cursor) : Except SyntaxError (String × String × Cursor) := do
  let began := c.mark
  let (handle, suffix, after) ←
    if c.peekAt? 1 = some '<' then
      let (address, after) ← readAddress true false "" began (c.skip 2)
      if !after.isAt '>' then complain after .noTagClose .tag began
      pure ("", address, after.skip 1)
    else
      let (handle, after) ← readHandle false began c
      if 1 < handle.length && handle.toList.getLast? = some '!' then
        let (suffix, after) ← readAddress false false "" began after
        pure (handle, suffix, after)
      else
        let (suffix, after) ← readAddress false false handle began after
        if suffix.isEmpty then pure ("", "!", after) else pure ("!", suffix, after)
  if !(after.atBlankOrEnd || inFlow && after.isAt ',') then
    complain after .noWhitespaceOrBreak .tag began
  pure (handle, suffix, after)

/-! ## Names -/

/-- Reads the name of an anchor or alias, after its indicator. -/
def readName (reading : Reading) (c : Cursor) : Except SyntaxError (String × Cursor) :=
  let began := c.mark
  let name := (c.rest.drop 1).takeWhile isWordChar
  let after := c.skip (1 + name.length)
  if name.isEmpty || !(after.atBlankOrEnd || after.peek?.any ("?:,]\x7d%@`".toList.contains ·)) then
    complain after .anchorCharacter reading began
  else .ok (String.ofList name, after)

/-! ## Directives -/

/-- A directive at the start of a document. -/
inductive Directive where
  | version (major minor : Nat)
  | tag (handle address : String)
  deriving DecidableEq

/-- Reads a number of a version. -/
def readVersionNumber (began : Mark) (c : Cursor) : Except SyntaxError (Nat × Cursor) :=
  let ds := c.rest.takeWhile Char.isDigit
  if 9 < ds.length then complain (c.skip 9) .longVersion .versionDirective began
  else if ds.isEmpty then complain c .noVersion .versionDirective began
  else .ok (Numeral.decimal ds, c.skip ds.length)

/-- Reads what follows the name of a version directive. -/
def readVersion (began : Mark) (c : Cursor) : Except SyntaxError (Directive × Cursor) := do
  let (major, c) ← readVersionNumber began c.skipBlanks
  if !c.isAt '.' then complain c .versionSeparator .versionDirective began
  let (minor, c) ← readVersionNumber began (c.skip 1)
  pure (.version major minor, c)

/-- Reads what follows the name of a tag directive. -/
def readTagDirective (began : Mark) (c : Cursor) : Except SyntaxError (Directive × Cursor) := do
  let (handle, c) ← readHandle true began c.skipBlanks
  if !c.atBlank then complain c .noWhitespace .tagDirective began
  let (address, c) ← readAddress true true "" began c.skipBlanks
  if !c.atBlankOrEnd then complain c .noWhitespaceOrBreak .tagDirective began
  pure (.tag handle address, c)

/-- Reads a directive up to the end of its line; tells where the directive itself ends. -/
def readDirective (c : Cursor) : Except SyntaxError (Directive × Mark × Cursor) := do
  let began := c.mark
  let name := (c.rest.drop 1).takeWhile isWordChar
  let after := c.skip (1 + name.length)
  if name.isEmpty then complain after .noDirectiveName .directive began
  if !after.atBlankOrEnd then complain after .directiveNameEnd .directive began
  let (directive, c) ←
    match String.ofList name with
    | "YAML" => readVersion began after
    | "TAG" => readTagDirective began after
    | _ => complain after .unknownDirective .directive began
  let finish := c.mark
  let c := c.skipBlanks.skipComment
  if !(c.atBreak || c.atEnd) then complain c .directiveEnd .directive began
  pure (directive, finish, c.skipBreak)

end Credential.Yaml
