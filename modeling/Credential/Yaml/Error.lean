/-!
# Credential.Yaml.Error — what can be wrong with a YAML text

A `SyntaxError` says what was found or missed and where, and, in most cases, what was being read and where
that began. Places are told as line and column from one; the very first place is not told at all.
-/

namespace Credential.Yaml

/-- A place in a text, counted from zero. -/
structure Mark where
  index : Nat
  line : Nat
  column : Nat
  deriving DecidableEq, Inhabited

namespace Mark

/-- The first place. -/
def start : Mark := ⟨0, 0, 0⟩

/-- Whether a place is the start of a text. -/
def isStart (m : Mark) : Bool := m.line = 0 && m.column = 0

/-- The place as told after a message. -/
def suffix (m : Mark) : String :=
  if m.isStart then ""
  else " at line " ++ Nat.repr (m.line + 1) ++ " column " ++ Nat.repr (m.column + 1)

end Mark

/-- What was being read. -/
inductive Reading where
  | nextToken
  | simpleKey
  | directive
  | versionDirective
  | tagDirective
  /-- The handle of a tag, as a directive names it. -/
  | tagDirectiveHandle
  /-- The end of that handle. -/
  | tagDirectiveHandleEnd
  /-- The address that a handle stands for. -/
  | tagDirectiveAddress
  | anchor
  | alias
  | tag
  /-- The address inside a tag. -/
  | tagAddress
  | blockScalar
  | quotedScalar
  /-- An escape inside a quoted scalar. -/
  | quotedEscape
  | plainScalar
  | node
  | blockNode
  | flowNode
  | blockCollection
  | blockMapping
  | flowSequence
  | flowMapping
  deriving DecidableEq

/-- What was being read, as told. -/
def Reading.text : Reading → String
  | .nextToken => "while scanning for the next token"
  | .simpleKey => "while scanning a simple key"
  | .directive => "while scanning a directive"
  | .versionDirective => "while scanning a %YAML directive"
  | .tagDirective => "while scanning a %TAG directive"
  | .tagDirectiveHandle => "while scanning a tag directive"
  | .tagDirectiveHandleEnd => "while parsing a tag directive"
  | .tagDirectiveAddress => "while parsing a %TAG directive"
  | .anchor => "while scanning an anchor"
  | .alias => "while scanning an alias"
  | .tag => "while scanning a tag"
  | .tagAddress => "while parsing a tag"
  | .blockScalar => "while scanning a block scalar"
  | .quotedScalar => "while scanning a quoted scalar"
  | .quotedEscape => "while parsing a quoted scalar"
  | .plainScalar => "while scanning a plain scalar"
  | .node => "while parsing a node"
  | .blockNode => "while parsing a block node"
  | .flowNode => "while parsing a flow node"
  | .blockCollection => "while parsing a block collection"
  | .blockMapping => "while parsing a block mapping"
  | .flowSequence => "while parsing a flow sequence"
  | .flowMapping => "while parsing a flow mapping"

/-- What was found or missed. -/
inductive Complaint where
  | controlCharacter
  | noTokenStart
  | noColon
  | sequenceEntryHere
  | mappingKeyHere
  | mappingValueHere
  | unknownDirective
  | noDirectiveName
  | directiveNameEnd
  | directiveEnd
  | versionSeparator
  | longVersion
  | noVersion
  | noWhitespace
  | noWhitespaceOrBreak
  | noTagMark
  | noTagAddress
  | noTagClose
  | badOctet
  | badLeadingOctet
  | badTrailingOctet
  | anchorCharacter
  | zeroIndentation
  | tabForSpace
  | tabIndentation
  | documentIndicator
  | endOfStream
  | unknownEscape
  | noHexNumber
  | badEscapeCode
  | unexpectedColon
  | noDocumentStart
  | duplicateVersion
  | incompatibleVersion
  | duplicateTagDirective
  | undefinedHandle
  | noNodeContent
  | noSequenceEntry
  | noKey
  | noSequenceSeparator
  | noMappingSeparator
  deriving DecidableEq

/-- What was found or missed, as told. -/
def Complaint.text : Complaint → String
  | .controlCharacter => "control characters are not allowed"
  | .noTokenStart => "found character that cannot start any token"
  | .noColon => "could not find expected ':'"
  | .sequenceEntryHere => "block sequence entries are not allowed in this context"
  | .mappingKeyHere => "mapping keys are not allowed in this context"
  | .mappingValueHere => "mapping values are not allowed in this context"
  | .unknownDirective => "found unknown directive name"
  | .noDirectiveName => "could not find expected directive name"
  | .directiveNameEnd => "found unexpected non-alphabetical character"
  | .directiveEnd => "did not find expected comment or line break"
  | .versionSeparator => "did not find expected digit or '.' character"
  | .longVersion => "found extremely long version number"
  | .noVersion => "did not find expected version number"
  | .noWhitespace => "did not find expected whitespace"
  | .noWhitespaceOrBreak => "did not find expected whitespace or line break"
  | .noTagMark => "did not find expected '!'"
  | .noTagAddress => "did not find expected tag URI"
  | .noTagClose => "did not find the expected '>'"
  | .badOctet => "did not find URI escaped octet"
  | .badLeadingOctet => "found an incorrect leading UTF-8 octet"
  | .badTrailingOctet => "found an incorrect trailing UTF-8 octet"
  | .anchorCharacter => "did not find expected alphabetic or numeric character"
  | .zeroIndentation => "found an indentation indicator equal to 0"
  | .tabForSpace => "found a tab character where an indentation space is expected"
  | .tabIndentation => "found a tab character that violates indentation"
  | .documentIndicator => "found unexpected document indicator"
  | .endOfStream => "found unexpected end of stream"
  | .unknownEscape => "found unknown escape character"
  | .noHexNumber => "did not find expected hexdecimal number"
  | .badEscapeCode => "found invalid Unicode character escape code"
  | .unexpectedColon => "found unexpected ':'"
  | .noDocumentStart => "did not find expected <document start>"
  | .duplicateVersion => "found duplicate %YAML directive"
  | .incompatibleVersion => "found incompatible YAML document"
  | .duplicateTagDirective => "found duplicate %TAG directive"
  | .undefinedHandle => "found undefined tag handle"
  | .noNodeContent => "did not find expected node content"
  | .noSequenceEntry => "did not find expected '-' indicator"
  | .noKey => "did not find expected key"
  | .noSequenceSeparator => "did not find expected ',' or ']'"
  | .noMappingSeparator => "did not find expected ',' or '\x7d'"

/-- A text that is no YAML. -/
structure SyntaxError where
  complaint : Complaint
  place : Mark
  /-- What was being read, and where it began. -/
  reading : Option (Reading × Mark)
  deriving DecidableEq

/-- The error as shown. A character that is not allowed is told by the number of bytes before it, any
other place by line and column; where the reading began is told unless it is the place itself. -/
def SyntaxError.message (e : SyntaxError) : String :=
  let place :=
    if e.complaint = .controlCharacter then
      if e.place.index = 0 then "" else " at position " ++ Nat.repr e.place.index
    else e.place.suffix
  let context := match e.reading with
    | none => ""
    | some (reading, began) =>
      let same := began.line = e.place.line && began.column = e.place.column
      ", " ++ reading.text ++ (if same then "" else began.suffix)
  e.complaint.text ++ place ++ context

end Credential.Yaml
