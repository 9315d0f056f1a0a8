import Credential.Yaml.Scalar
import Credential.Yaml.Tag
/-!
# Credential.Yaml.Token — the tokens of a YAML text

`Token.scan` cuts a text into tokens. Collections outside of brackets have no brackets of their own in the
text; they are opened where a line is indented further than the one before, and closed where it is
indented less, so the tokens for their starts and ends are made from columns.

A key without an indicator in front is found only by the colon after it. Until then the token that may
start it is held back, and with it all tokens after it; it stops being a possible key at the end of its
line and after 1024 characters. Tokens held back when an error is met never come out.
-/

namespace Credential.Yaml

/-- How a scalar is written. -/
inductive ScalarStyle where
  | plain
  | quoted
  | block
  deriving DecidableEq

/-- What a token is. -/
inductive TokenKind where
  | streamStart
  | streamEnd
  | directive (directive : Directive)
  | documentStart
  | documentEnd
  | blockSequenceStart
  | blockMappingStart
  | blockEnd
  | flowSequenceStart
  | flowSequenceEnd
  | flowMappingStart
  | flowMappingEnd
  | blockEntry
  | flowEntry
  | key
  | value
  | alias (name : String)
  | anchor (name : String)
  | tag (handle suffix : String)
  | scalar (text : String) (style : ScalarStyle)
  deriving DecidableEq

/-- A token and where it starts and ends. -/
structure Token where
  kind : TokenKind
  start : Mark
  finish : Mark
  deriving DecidableEq

/-! ## The state of scanning -/

/-- A token that may turn out to start a key. -/
structure PossibleKey where
  /-- The number of the token. -/
  token : Nat
  mark : Mark
  /-- Whether the text is wrong unless it is a key. -/
  required : Bool
  deriving DecidableEq

/-- The state between two tokens. -/
structure Lexer where
  cursor : Cursor
  /-- The columns of the open collections, innermost first. -/
  indents : List Nat
  /-- Whether a key may start here. -/
  keyAllowed : Bool
  /-- The possible key outside of all brackets. -/
  outerKey : Option PossibleKey
  /-- The possible keys inside of each open bracket, innermost first. -/
  innerKeys : List (Option PossibleKey)
  /-- The tokens that came out, last first. -/
  released : List Token
  /-- How many came out. -/
  count : Nat
  /-- The tokens held back. -/
  pending : List Token
  deriving Inhabited

namespace Lexer

/-- The state at the start of a text. -/
def start (cs : List Char) : Lexer :=
  { cursor := .ofText cs, indents := [], keyAllowed := true, outerKey := none, innerKeys := [],
    released := [⟨.streamStart, .start, .start⟩], count := 1, pending := [] }

/-- Whether some bracket is open. -/
def inFlow (l : Lexer) : Bool := !l.innerKeys.isEmpty

/-- The possible key at the level of brackets that is read. -/
def currentKey (l : Lexer) : Option PossibleKey :=
  match l.innerKeys with
  | key :: _ => key
  | [] => l.outerKey

/-- The same with another possible key at this level. -/
def withKey (l : Lexer) (key : Option PossibleKey) : Lexer :=
  match l.innerKeys with
  | _ :: rest => { l with innerKeys := key :: rest }
  | [] => { l with outerKey := key }

/-- All possible keys, outermost first. -/
def possibleKeys (l : Lexer) : List PossibleKey :=
  (l.outerKey :: l.innerKeys.reverse).filterMap id

/-- Adds a token at the end. -/
def emit (l : Lexer) (token : Token) : Lexer := { l with pending := l.pending ++ [token] }

/-- Adds a token before the one of a number. -/
def insertAt (l : Lexer) (number : Nat) (token : Token) : Lexer :=
  let i := number - l.count
  { l with pending := l.pending.take i ++ token :: l.pending.drop i }

/-- The number of the next token. -/
def nextNumber (l : Lexer) : Nat := l.count + l.pending.length

/-! ### Possible keys -/

/-- Whether a possible key can no longer become one. -/
def isStale (l : Lexer) (key : PossibleKey) : Bool :=
  key.mark.line < l.cursor.mark.line || key.mark.index + 1024 < l.cursor.mark.index

/-- Drops the keys that can no longer become one; a required one is an error. -/
def dropStale (l : Lexer) : Except SyntaxError Lexer :=
  match l.possibleKeys.find? fun key => l.isStale key && key.required with
  | some key => complain l.cursor .noColon .simpleKey key.mark
  | none =>
    let keep (key : Option PossibleKey) : Option PossibleKey := key.filter fun key => !l.isStale key
    .ok { l with outerKey := keep l.outerKey, innerKeys := l.innerKeys.map keep }

/-- Gives up the possible key at this level; a required one is an error. -/
def removeKey (l : Lexer) : Except SyntaxError Lexer :=
  match l.currentKey with
  | some key =>
    if key.required then complain l.cursor .noColon .simpleKey key.mark else .ok (l.withKey none)
  | none => .ok l

/-- Notes that the next token may start a key. Outside of brackets it has to, if it stands in the column of
the open collection. -/
def saveKey (l : Lexer) : Except SyntaxError Lexer :=
  if l.keyAllowed then do
    let required := !l.inFlow && l.indents.head? = some l.cursor.mark.column
    let key : PossibleKey := ⟨l.nextNumber, l.cursor.mark, required⟩
    pure ((← l.removeKey).withKey (some key))
  else .ok l

/-! ### Indentation -/

/-- Opens a collection at a column if it is indented further than the open one; the token goes before the
one of the number, if a number is given. -/
def indent (l : Lexer) (column : Nat) (number : Option Nat) (kind : TokenKind) (mark : Mark) : Lexer :=
  if l.inFlow || l.indents.head?.any (column ≤ ·) then l
  else
    let token : Token := ⟨kind, mark, mark⟩
    let l := { l with indents := column :: l.indents }
    match number with
    | some n => l.insertAt n token
    | none => l.emit token

/-- Closes the collections that are indented further than a column, all of them if none is given. -/
def unindent (l : Lexer) (column : Option Nat) : Lexer :=
  if l.inFlow then l
  else
    let closed := (l.indents.takeWhile fun n => column.all (· < n)).length
    let token : Token := ⟨.blockEnd, l.cursor.mark, l.cursor.mark⟩
    { l with
      indents := l.indents.drop closed, pending := l.pending ++ List.replicate closed token }

/-! ### Tokens -/

/-- Adds a token of a number of characters. -/
def take (l : Lexer) (width : Nat) (kind : TokenKind) : Lexer :=
  let after := l.cursor.skip width
  { l.emit ⟨kind, l.cursor.mark, after.mark⟩ with cursor := after }

/-- Adds a token that was read up to a cursor. -/
def takeTo (l : Lexer) (kind : TokenKind) (finish : Mark) (after : Cursor) : Lexer :=
  { l.emit ⟨kind, l.cursor.mark, finish⟩ with cursor := after }

/-- Adds a scalar. -/
def takeScalar (l : Lexer) (style : ScalarStyle) (read : ScalarRead) : Lexer :=
  l.takeTo (.scalar (String.ofList read.text) style) read.finish read.cursor

/-- The same with or without a key allowed. -/
def allowKey (l : Lexer) (allowed : Bool) : Lexer := { l with keyAllowed := allowed }

/-- Reads the end of the text. -/
def fetchEnd (l : Lexer) : Except SyntaxError Lexer := do
  let mark := l.cursor.mark
  let mark := if mark.column = 0 then mark else { mark with line := mark.line + 1, column := 0 }
  let l := { l with cursor := { l.cursor with mark := mark } }
  let l ← (l.unindent none).removeKey
  pure ((l.allowKey false).take 0 .streamEnd)

/-- Reads a directive. -/
def fetchDirective (l : Lexer) : Except SyntaxError Lexer := do
  let l ← (l.unindent none).removeKey
  let (directive, finish, after) ← readDirective l.cursor
  pure ((l.allowKey false).takeTo (.directive directive) finish after)

/-- Reads a mark between documents. -/
def fetchMarker (l : Lexer) (kind : TokenKind) : Except SyntaxError Lexer := do
  let l ← (l.unindent none).removeKey
  pure ((l.allowKey false).take 3 kind)

/-- Reads an opening bracket. -/
def fetchOpening (l : Lexer) (kind : TokenKind) : Except SyntaxError Lexer := do
  let l ← l.saveKey
  pure (({ l with innerKeys := none :: l.innerKeys }.allowKey true).take 1 kind)

/-- Reads a closing bracket. -/
def fetchClosing (l : Lexer) (kind : TokenKind) : Except SyntaxError Lexer := do
  let l ← l.removeKey
  pure (({ l with innerKeys := l.innerKeys.drop 1 }.allowKey false).take 1 kind)

/-- Reads a comma. -/
def fetchComma (l : Lexer) : Except SyntaxError Lexer := do
  let l ← l.removeKey
  pure ((l.allowKey true).take 1 .flowEntry)

/-- Reads a hyphen before an entry. -/
def fetchEntry (l : Lexer) : Except SyntaxError Lexer := do
  if !l.inFlow && !l.keyAllowed then throw ⟨.sequenceEntryHere, l.cursor.mark, none⟩
  let l ← (l.indent l.cursor.mark.column none .blockSequenceStart l.cursor.mark).removeKey
  pure ((l.allowKey true).take 1 .blockEntry)

/-- Reads a question mark before a key. -/
def fetchKey (l : Lexer) : Except SyntaxError Lexer := do
  if !l.inFlow && !l.keyAllowed then throw ⟨.mappingKeyHere, l.cursor.mark, none⟩
  let l ← (l.indent l.cursor.mark.column none .blockMappingStart l.cursor.mark).removeKey
  pure ((l.allowKey (!l.inFlow)).take 1 .key)

/-- Reads a colon before a value. If what was read before may be a key, it now is one. -/
def fetchValue (l : Lexer) : Except SyntaxError Lexer :=
  match l.currentKey with
  | some key =>
    let l := l.insertAt key.token ⟨.key, key.mark, key.mark⟩
    let l := l.indent key.mark.column (some key.token) .blockMappingStart key.mark
    .ok (((l.withKey none).allowKey false).take 1 .value)
  | none =>
    if !l.inFlow && !l.keyAllowed then .error ⟨.mappingValueHere, l.cursor.mark, none⟩
    else
      let l := l.indent l.cursor.mark.column none .blockMappingStart l.cursor.mark
      .ok ((l.allowKey (!l.inFlow)).take 1 .value)

/-- Reads an anchor. -/
def fetchAnchor (l : Lexer) : Except SyntaxError Lexer := do
  let l ← l.saveKey
  let (name, after) ← readName .anchor l.cursor
  pure ((l.allowKey false).takeTo (.anchor name) after.mark after)

/-- Reads an alias. -/
def fetchAlias (l : Lexer) : Except SyntaxError Lexer := do
  let l ← l.saveKey
  let (name, after) ← readName .alias l.cursor
  pure ((l.allowKey false).takeTo (.alias name) after.mark after)

/-- Reads a tag. -/
def fetchTag (l : Lexer) : Except SyntaxError Lexer := do
  let l ← l.saveKey
  let (handle, suffix, after) ← readTag l.inFlow l.cursor
  pure ((l.allowKey false).takeTo (.tag handle suffix) after.mark after)

/-- Reads a block scalar. -/
def fetchBlock (l : Lexer) (folded : Bool) : Except SyntaxError Lexer := do
  let l ← l.removeKey
  let read ← readBlock folded l.indents.head? l.cursor
  pure ((l.allowKey true).takeScalar .block read)

/-- Reads a quoted scalar. -/
def fetchQuoted (l : Lexer) (single : Bool) : Except SyntaxError Lexer := do
  let l ← l.saveKey
  let read ← readQuoted single l.cursor
  pure ((l.allowKey false).takeScalar .quoted read)

/-- Reads a plain scalar. -/
def fetchPlain (l : Lexer) : Except SyntaxError Lexer := do
  let l ← l.saveKey
  let limit := match l.indents with
    | n :: _ => n + 1
    | [] => 0
  let read ← readPlain l.inFlow limit l.cursor
  pure ((l.allowKey read.broken).takeScalar .plain read)

/-- The indicators that no plain scalar starts with. -/
def indicators : List Char := "-?:,[]\x7b\x7d#&*!|>'\"%@`".toList

/-- Whether a plain scalar starts here. -/
def startsPlain (l : Lexer) : Bool :=
  let next := l.cursor.peekAt? 1
  match l.cursor.peek? with
  | none => false
  | some c =>
    !(isBlank c || isBreak c || indicators.contains c)
      || c = '-' && !next.any isBlank
      || !l.inFlow && (c = '?' || c = ':') && !isBlankOrEnd next

/-- Reads the token that starts here. -/
def fetchHere (l : Lexer) : Except SyntaxError Lexer :=
  let c := l.cursor
  let beforeBlank := isBlankOrEnd (c.peekAt? 1)
  match c.peek? with
  | none => l.fetchEnd
  | some d =>
    -- directives and markers stand at the start of a line only
    if c.mark.column = 0 && d = '%' then l.fetchDirective
    else if c.atMarker "---" then l.fetchMarker .documentStart
    else if c.atMarker "..." then l.fetchMarker .documentEnd
    else if d = '[' then l.fetchOpening .flowSequenceStart
    else if d = '\x7b' then l.fetchOpening .flowMappingStart
    else if d = ']' then l.fetchClosing .flowSequenceEnd
    else if d = '\x7d' then l.fetchClosing .flowMappingEnd
    else if d = ',' then l.fetchComma
    -- inside brackets a key or value indicator needs no blank after it
    else if d = '-' && beforeBlank then l.fetchEntry
    else if d = '?' && (l.inFlow || beforeBlank) then l.fetchKey
    else if d = ':' && (l.inFlow || beforeBlank) then l.fetchValue
    else if d = '*' then l.fetchAlias
    else if d = '&' then l.fetchAnchor
    else if d = '!' then l.fetchTag
    else if d = '|' && !l.inFlow then l.fetchBlock false
    else if d = '>' && !l.inFlow then l.fetchBlock true
    else if d = '\'' then l.fetchQuoted true
    else if d = '"' then l.fetchQuoted false
    else if l.startsPlain then l.fetchPlain
    else complain c .noTokenStart .nextToken c.mark

/-- Goes over blanks, comments and line ends before a token. A tab does not count as a blank where a key
may start outside of brackets. -/
def skipToToken : Nat → Lexer → Lexer
  | 0, l => l
  | fuel + 1, l =>
    let isSpace (c : Char) : Bool := c = ' ' || c = '\t' && (l.inFlow || !l.keyAllowed)
    let c := (l.cursor.skipWhile isSpace).skipComment
    if c.atBreak then
      skipToToken fuel { l with cursor := c.skipBreak, keyAllowed := l.keyAllowed || !l.inFlow }
    else { l with cursor := c }

/-- Reads the next token. -/
def fetch (l : Lexer) : Except SyntaxError Lexer := do
  let l ← (skipToToken (l.cursor.rest.length + 1) l).dropStale
  let l ← (l.unindent (some l.cursor.mark.column)).fetchHere
  l.dropStale

/-- Lets out the tokens before the first that may start a key. -/
def release (l : Lexer) : Lexer :=
  let held := (l.possibleKeys.map (·.token)).foldl min l.nextNumber
  let out := l.pending.take (held - l.count)
  { l with
    released := out.reverse ++ l.released
    count := l.count + out.length
    pending := l.pending.drop out.length }

/-- Whether the token for the end of the text was read. -/
def isDone (l : Lexer) : Bool :=
  l.pending.getLast?.any (·.kind = .streamEnd) || l.released.head?.any (·.kind = .streamEnd)

/-- Reads all tokens; gives those that came out and the error that stopped reading. -/
def run : Nat → Lexer → List Token × Option SyntaxError
  | 0, l => (l.released.reverse, none)
  | fuel + 1, l =>
    if l.isDone then (l.released.reverse ++ l.pending, none)
    else
      match l.fetch with
      | .ok l => run fuel l.release
      | .error e => (l.released.reverse, some e)

end Lexer

/-- A mark of the byte order at the start of a text is not part of it. -/
def withoutByteOrderMark : List Char → List Char
  | '\ufeff' :: rest => rest
  | cs => cs

/-- The number of bytes before the first character that may not stand in a text. -/
def controlCharacter? : Nat → List Char → Option Nat
  | _, [] => none
  | offset, c :: rest =>
    if isPrintable c then controlCharacter? (offset + c.utf8Size) rest else some offset

/-- The tokens of a text, and the error that stopped reading. -/
def Token.scan (text : String) : List Token × Option SyntaxError :=
  let cs := text.toList
  match controlCharacter? 0 cs with
  | some offset => ([], some ⟨.controlCharacter, ⟨offset, 0, 0⟩, none⟩)
  | none =>
    let cs := withoutByteOrderMark cs
    Lexer.run (2 * cs.length + 4) (.start cs)

end Credential.Yaml
