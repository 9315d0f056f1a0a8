import Credential.Yaml.Token
/-!
# Credential.Yaml.Event — the structure of a YAML document

Events are what tokens say about the structure of a document: where collections start and end, what the
scalars are, which parts have names. A key or a value that is left out shows as an empty scalar.

The tokens are read against a stack of goals, each of which is something that still has to come. A step
takes the topmost goal, looks at the next tokens, and gives at most one event; so the events before an
error are known even where the text goes wrong.
-/

namespace Credential.Yaml

/-! ## Events -/

/-- The name and the tag of a node. -/
structure Properties where
  anchor : Option String
  tag : Option String
  deriving DecidableEq, Inhabited

/-- No name and no tag. -/
def Properties.none : Properties := ⟨.none, .none⟩

/-- A step in the structure of a document. -/
inductive Event where
  | alias (name : String)
  | scalar (properties : Properties) (text : String) (style : ScalarStyle)
  | sequenceStart (properties : Properties)
  | sequenceEnd
  | mappingStart (properties : Properties)
  | mappingEnd
  deriving DecidableEq, Inhabited

/-- An event and where it starts. -/
structure PlacedEvent where
  event : Event
  mark : Mark
  deriving DecidableEq, Inhabited

/-- The scalar that stands where nothing is written. -/
def Event.empty : Event := .scalar .none "" .plain

/-! ## Goals -/

/-- Something that still has to come. -/
inductive Goal where
  /-- A node, perhaps without brackets, perhaps a sequence that is not indented further than its key. -/
  | node (block indentless : Bool)
  /-- The entries of a sequence that began at a place. -/
  | blockEntries (began : Mark)
  /-- The entries of a sequence that is not indented. -/
  | indentlessEntries
  /-- A key, or the end, of a mapping that began at a place. -/
  | blockKeys (began : Mark)
  /-- The value of the key of such a mapping. -/
  | blockValue (began : Mark)
  /-- The entries of a sequence in brackets. -/
  | flowEntries (began : Mark) (first : Bool)
  /-- The key of a mapping of one pair in a sequence in brackets. -/
  | pairKey
  | pairValue
  | pairEnd
  /-- A key, or the end, of a mapping in braces. -/
  | flowKeys (began : Mark) (first : Bool)
  | flowValue
  /-- The value of a key in braces that has no indicator in front. -/
  | missingValue
  deriving DecidableEq

/-- The state between two steps. -/
structure Outline where
  tokens : List Token
  /-- The error after the last token. -/
  stop : Option SyntaxError
  /-- What the handles of tags stand for. -/
  handles : List (String × String)
  goals : List Goal
  /-- The events so far, last first. -/
  events : List PlacedEvent
  deriving Inhabited

namespace Outline

/-- The next token. -/
def peek (o : Outline) : Except SyntaxError Token :=
  match o.tokens with
  | token :: _ => .ok token
  | [] => .error (o.stop.getD ⟨.endOfStream, .start, none⟩)

/-- The same without the next token. -/
def skip (o : Outline) : Outline := { o with tokens := o.tokens.drop 1 }

/-- Adds an event. -/
def emit (o : Outline) (event : Event) (mark : Mark) : Outline :=
  { o with events := ⟨event, mark⟩ :: o.events }

/-- Puts goals before the ones there are. -/
def want (o : Outline) (goals : List Goal) : Outline := { o with goals := goals ++ o.goals }

/-- A complaint about a place, with what was being read since another. -/
def wrong {α : Type} (complaint : Complaint) (place : Mark) (reading : Reading) (began : Mark) :
    Except SyntaxError α :=
  .error ⟨complaint, place, some (reading, began)⟩

/-! ## Nodes -/

/-- What a tag stands for. -/
def resolveTag (o : Outline) (began place : Mark) (handle suffix : String) : Except SyntaxError String :=
  if handle.isEmpty then .ok suffix
  else
    match o.handles.lookup handle with
    | some address => .ok (address ++ suffix)
    | none => wrong .undefinedHandle place .node began

/-- A tag before a node, and where it stands. -/
abbrev PlacedTag := String × String × Mark

/-- Reads a name, if there is one. -/
def readAnchor? (o : Outline) : Except SyntaxError (Option String × Outline) := do
  match (← o.peek).kind with
  | .anchor name => pure (some name, o.skip)
  | _ => pure (none, o)

/-- Reads a tag, if there is one. -/
def readTag? (o : Outline) : Except SyntaxError (Option PlacedTag × Outline) := do
  let token ← o.peek
  match token.kind with
  | .tag handle suffix => pure (some (handle, suffix, token.start), o.skip)
  | _ => pure (none, o)

/-- Reads the name and the tag of a node, in either order. -/
def readProperties (o : Outline) : Except SyntaxError (Properties × Outline) := do
  let began := (← o.peek).start
  let (anchor, o) ← o.readAnchor?
  let (tag, o) ← o.readTag?
  let (anchor, o) ← if anchor.isSome || tag.isNone then pure (anchor, o) else o.readAnchor?
  let _ ← o.peek
  match tag with
  | none => pure (⟨anchor, none⟩, o)
  | some (handle, suffix, place) =>
    let tag ← o.resolveTag began place handle suffix
    pure (⟨anchor, some tag⟩, o)

/-- Reads a node. A lone exclamation mark before a scalar is as good as no tag. -/
def stepNode (o : Outline) (block indentless : Bool) : Except SyntaxError Outline := do
  let first ← o.peek
  match first.kind with
  | .alias name => pure (o.skip.emit (.alias name) first.start)
  | _ =>
    let (properties, o) ← o.readProperties
    let began := first.start
    let token ← o.peek
    let sequence := Event.sequenceStart properties
    let mapping := Event.mappingStart properties
    match token.kind, block, indentless with
    | .blockEntry, _, true => pure ((o.emit sequence began).want [.indentlessEntries])
    | .scalar text style, _, _ =>
      let tag := properties.tag.filter (· ≠ "!")
      pure (o.skip.emit (.scalar { properties with tag := tag } text style) began)
    | .flowSequenceStart, _, _ =>
      pure ((o.skip.emit sequence began).want [.flowEntries token.start true])
    | .flowMappingStart, _, _ =>
      pure ((o.skip.emit mapping began).want [.flowKeys token.start true])
    | .blockSequenceStart, true, _ =>
      pure ((o.skip.emit sequence began).want [.blockEntries token.start])
    | .blockMappingStart, true, _ =>
      pure ((o.skip.emit mapping began).want [.blockKeys token.start])
    | _, _, _ =>
      if properties = .none then
        wrong .noNodeContent token.start (if block then .blockNode else .flowNode) began
      else pure (o.emit (.scalar properties "" .plain) began)

/-! ## Collections -/

/-- Wants a node, unless the next token is one of those that show it is left out. -/
def nodeUnless (o : Outline) (absent : List TokenKind) (goal : Goal) (mark : Mark) :
    Except SyntaxError Outline := do
  let token ← o.peek
  if absent.contains token.kind then pure (o.emit .empty mark) else pure (o.want [goal])

/-- Reads on in a sequence without brackets. -/
def stepBlockEntries (o : Outline) (began : Mark) : Except SyntaxError Outline := do
  let token ← o.peek
  match token.kind with
  | .blockEntry =>
    (o.skip.want [.blockEntries began]).nodeUnless [.blockEntry, .blockEnd] (.node true false) token.finish
  | .blockEnd => pure (o.skip.emit .sequenceEnd token.start)
  | _ => wrong .noSequenceEntry token.start .blockCollection began

/-- Reads on in a sequence that is not indented. -/
def stepIndentlessEntries (o : Outline) : Except SyntaxError Outline := do
  let token ← o.peek
  match token.kind with
  | .blockEntry =>
    (o.skip.want [.indentlessEntries]).nodeUnless [.blockEntry, .key, .value, .blockEnd] (.node true false)
      token.finish
  | _ => pure (o.emit .sequenceEnd token.start)

/-- Reads on in a mapping without braces. -/
def stepBlockKeys (o : Outline) (began : Mark) : Except SyntaxError Outline := do
  let token ← o.peek
  match token.kind with
  | .key =>
    (o.skip.want [.blockValue began]).nodeUnless [.key, .value, .blockEnd] (.node true true) token.finish
  | .blockEnd => pure (o.skip.emit .mappingEnd token.start)
  | _ => wrong .noKey token.start .blockMapping began

/-- Reads a value in a mapping without braces. -/
def stepBlockValue (o : Outline) (began : Mark) : Except SyntaxError Outline := do
  let token ← o.peek
  let o := o.want [.blockKeys began]
  match token.kind with
  | .value => o.skip.nodeUnless [.key, .value, .blockEnd] (.node true true) token.finish
  | _ => pure (o.emit .empty token.start)

/-- Goes over the comma between two members of a collection in brackets. -/
def skipComma (o : Outline) (first : Bool) (close : TokenKind) (complaint : Complaint) (reading : Reading)
    (began : Mark) : Except SyntaxError Outline := do
  let token ← o.peek
  if first || token.kind = close then pure o
  else if token.kind = .flowEntry then pure o.skip
  else wrong complaint token.start reading began

/-- Reads on in a sequence in brackets. -/
def stepFlowEntries (o : Outline) (began : Mark) (first : Bool) : Except SyntaxError Outline := do
  let o ← o.skipComma first .flowSequenceEnd .noSequenceSeparator .flowSequence began
  let token ← o.peek
  match token.kind with
  | .flowSequenceEnd => pure (o.skip.emit .sequenceEnd token.start)
  | .key =>
    pure ((o.skip.emit (.mappingStart .none) token.start).want
      [.pairKey, .pairValue, .pairEnd, .flowEntries began false])
  | _ => pure (o.want [.node false false, .flowEntries began false])

/-- Reads the key of a single pair. What shows that it is left out is gone over with it. -/
def stepPairKey (o : Outline) : Except SyntaxError Outline := do
  let token ← o.peek
  match token.kind with
  | .value | .flowEntry | .flowSequenceEnd => pure (o.skip.emit .empty token.finish)
  | _ => pure (o.want [.node false false])

/-- Reads a value in brackets or braces. -/
def stepFlowValue (o : Outline) (close : TokenKind) : Except SyntaxError Outline := do
  let token ← o.peek
  match token.kind with
  | .value =>
    let o := o.skip
    o.nodeUnless [.flowEntry, close] (.node false false) (← o.peek).start
  | _ => pure (o.emit .empty token.start)

/-- Reads on in a mapping in braces. -/
def stepFlowKeys (o : Outline) (began : Mark) (first : Bool) : Except SyntaxError Outline := do
  let o ← o.skipComma first .flowMappingEnd .noMappingSeparator .flowMapping began
  let token ← o.peek
  match token.kind with
  | .flowMappingEnd => pure (o.skip.emit .mappingEnd token.start)
  | .key =>
    let o := o.skip
    (o.want [.flowValue, .flowKeys began false]).nodeUnless [.value, .flowEntry, .flowMappingEnd]
      (.node false false) (← o.peek).start
  | _ => pure (o.want [.node false false, .missingValue, .flowKeys began false])

/-! ## Documents -/

/-- Reads what is wanted first. -/
def step (o : Outline) : Goal → Except SyntaxError Outline
  | .node block indentless => o.stepNode block indentless
  | .blockEntries began => o.stepBlockEntries began
  | .indentlessEntries => o.stepIndentlessEntries
  | .blockKeys began => o.stepBlockKeys began
  | .blockValue began => o.stepBlockValue began
  | .flowEntries began first => o.stepFlowEntries began first
  | .pairKey => o.stepPairKey
  | .pairValue => o.stepFlowValue .flowSequenceEnd
  | .pairEnd => do pure (o.emit .mappingEnd (← o.peek).start)
  | .flowKeys began first => o.stepFlowKeys began first
  | .flowValue => o.stepFlowValue .flowMappingEnd
  | .missingValue => do pure (o.emit .empty (← o.peek).start)

/-- Reads until nothing more is wanted; gives the last state and the error that stopped reading. -/
def run : Nat → Outline → Outline × Option SyntaxError
  | 0, o => (o, none)
  | fuel + 1, o =>
    match o.goals with
    | [] => (o, none)
    | goal :: goals =>
      match step { o with goals := goals } goal with
      | .ok o => run fuel o
      | .error e => (o, some e)

/-- Reads the directives before a document. -/
def readDirectives (o : Outline) (versionSeen : Bool) :
    List Token → List (String × String) → Except SyntaxError (List (String × String) × List Token)
  | token :: rest, handles =>
    match token.kind with
    | .directive (.version major minor) =>
      if versionSeen then .error ⟨.duplicateVersion, token.start, none⟩
      else if major ≠ 1 || minor ≠ 1 && minor ≠ 2 then
        .error ⟨.incompatibleVersion, token.start, none⟩
      else readDirectives o true rest handles
    | .directive (.tag handle address) =>
      if (handles.lookup handle).isSome then .error ⟨.duplicateTagDirective, token.start, none⟩
      else readDirectives o versionSeen rest ((handle, address) :: handles)
    | _ => .ok (handles, token :: rest)
  | [], _ => .error (o.stop.getD ⟨.endOfStream, .start, none⟩)

/-- The handles that need no directive. -/
def standardHandles : List (String × String) := [("!", "!"), ("!!", "tag:yaml.org,2002:")]

/-- Whether a token stands where a document has nothing in it. -/
def endsDocument : TokenKind → Bool
  | .directive _ | .documentStart | .documentEnd | .streamEnd => true
  | _ => false

/-- Reads the start of the first document, if there is one. -/
def openDocument (o : Outline) : Except SyntaxError (Option Outline) := do
  match (← o.peek).kind with
  | .streamEnd => pure none
  | .directive _ | .documentStart =>
    let (handles, tokens) ← o.readDirectives false o.tokens []
    let o := { o with handles := handles ++ standardHandles, tokens := tokens }
    let token ← o.peek
    if token.kind ≠ .documentStart then throw ⟨.noDocumentStart, token.start, none⟩
    let o := o.skip
    let next ← o.peek
    if endsDocument next.kind then pure (some (o.emit .empty next.start))
    else pure (some (o.want [.node true false]))
  | _ => pure (some ({ o with handles := standardHandles }.want [.node true false]))

/-- Reads the document that was opened, and looks at the token after it. -/
def readDocument (o : Outline) : Outline × Option SyntaxError :=
  match o.run (6 * o.tokens.length + 16) with
  | (o, some e) => (o, some e)
  | (o, none) =>
    match o.peek with
    | .ok _ => (o, none)
    | .error e => (o, some e)

/-- Whether nothing follows the document that was read. -/
def isAlone (o : Outline) : Bool :=
  let rest := (o.tokens.dropWhile (·.kind = .documentEnd)).head?
  rest.any (·.kind = .streamEnd)

end Outline

/-- What is known of the first document of a text. -/
structure FirstDocument where
  events : List PlacedEvent
  /-- The error that cut it short. -/
  error : Option SyntaxError
  /-- Whether it is known that nothing follows it. -/
  alone : Bool
  deriving Inhabited

/-- The first document of a text. A text without documents has no events. -/
def FirstDocument.ofText (text : String) : FirstDocument :=
  let (tokens, stop) := Token.scan text
  let start : Outline := { tokens := tokens.drop 1, stop := stop, handles := [], goals := [], events := [] }
  match start.openDocument with
  | .error e => ⟨[], some e, false⟩
  | .ok none => ⟨[], none, true⟩
  | .ok (some o) =>
    let (o, error) := o.readDocument
    ⟨o.events.reverse, error, o.isAlone⟩

end Credential.Yaml
