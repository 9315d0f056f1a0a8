import Credential.Yaml.Event
import Credential.Yaml.Plain
/-!
# Credential.Yaml.Document — the JSON value of a YAML text

`Yaml.parse` reads a text with one document in it as a JSON value. Names are replaced by what they stand
for. The value is read off the events from left to right, and what cannot be part of a JSON value is
reported with the place of the event and the path to it; an error in the text itself shows only if nothing
before it is wrong.

Collections may nest 128 deep, and names may be used a hundred times as often as there are events; both
bounds keep a short text from standing for an enormous value.
-/

namespace Credential.Yaml

/-! ## Paths -/

/-- A step from a collection to a part of it. -/
inductive PathStep where
  | index (n : Nat)
  | key (text : String)
  /-- The value of a key that is given by name. -/
  | unnamed

/-- The path to a part, last step first. -/
abbrev Path := List PathStep

/-- A path as told. -/
def Path.text : Path → String
  | [] => "."
  | .index n :: parent => Path.text parent ++ "[" ++ Nat.repr n ++ "]"
  | .key key :: parent => (if parent.isEmpty then "" else Path.text parent ++ ".") ++ key
  | .unnamed :: parent => (if parent.isEmpty then "" else Path.text parent ++ ".") ++ "?"

/-! ## Errors -/

/-- What cannot be part of a JSON value. -/
inductive Misfit where
  | scalar (mismatch : Mismatch)
  /-- A tag of the application. -/
  | localTag
  /-- A collection as a key. -/
  | collectionKey (isMapping isFirst : Bool)

/-- What cannot be part of a JSON value, as told. -/
def Misfit.message : Misfit → String
  | .scalar mismatch => mismatch.message
  | .localTag => "invalid type: enum, expected any valid JSON value"
  | .collectionKey isMapping isFirst =>
    "invalid type: " ++ (if isMapping then "map" else "sequence") ++ ", expected a string"
      ++ (if isFirst then " key" else "")

/-- Why a text has no JSON value. -/
inductive ParseError where
  /-- The text is no YAML. -/
  | malformed (error : SyntaxError)
  | unknownAnchor (mark : Mark)
  | manyDocuments
  | tooDeep (mark : Mark)
  | tooManyAliases
  | unfinished
  | unusable (misfit : Misfit) (path : Path) (mark : Mark)

/-- The error as shown. -/
def ParseError.message : ParseError → String
  | .malformed error => error.message
  | .unknownAnchor mark => "unknown anchor" ++ mark.suffix
  | .manyDocuments => "deserializing from YAML containing more than one document is not supported"
  | .tooDeep mark => "recursion limit exceeded" ++ mark.suffix
  | .tooManyAliases => "repetition limit exceeded"
  | .unfinished => "EOF while parsing a value"
  | .unusable misfit path mark =>
    (if path.isEmpty then "" else Path.text path ++ ": ") ++ misfit.message ++ mark.suffix

/-! ## Names -/

/-- What is known of the names after some events. -/
structure Anchors where
  /-- The number that a name has now. -/
  numbers : List (String × Nat)
  /-- The event that a number stands for, last given first. -/
  targets : List (Nat × Nat)

namespace Anchors

/-- No names. -/
def none : Anchors := ⟨[], []⟩

/-- Gives a name to an event. Its number is how many different names there are; so a name that is given a
second time shares its number with the next new name, and the later of the two events counts for both. -/
def put (a : Anchors) (name : String) (event : Nat) : Anchors :=
  let number := a.numbers.length
  { numbers := (name, number) :: a.numbers.filter (·.1 ≠ name)
    targets := (number, event) :: a.targets }

end Anchors

/-- An event with names replaced by numbers. -/
inductive Part where
  | alias (number : Nat)
  | event (event : Event)
  deriving Inhabited

/-- A document whose names are known. -/
structure Script where
  parts : Array (Part × Mark)
  anchors : Anchors
  /-- The error after the last part. -/
  stop : Option ParseError

namespace Script

/-- The name that an event gives. -/
def anchor? : Event → Option String
  | .scalar properties _ _ => properties.anchor
  | .sequenceStart properties => properties.anchor
  | .mappingStart properties => properties.anchor
  | _ => none

/-- Goes on with the events of a document; one with an unknown name is the last. -/
def extend (s : Script) : List PlacedEvent → Script
  | [] => s
  | ⟨.alias name, mark⟩ :: rest =>
    match s.anchors.numbers.lookup name with
    | some number => extend { s with parts := s.parts.push (.alias number, mark) } rest
    | none => { s with stop := some (.unknownAnchor mark) }
  | ⟨event, mark⟩ :: rest =>
    let anchors := match anchor? event with
      | some name => s.anchors.put name s.parts.size
      | none => s.anchors
    extend { s with parts := s.parts.push (.event event, mark), anchors := anchors } rest

/-- The script of a document. -/
def ofDocument (d : FirstDocument) : Script :=
  extend ⟨#[], .none, d.error.map .malformed⟩ d.events

/-! ## Values -/

/-- How far a script is read. -/
structure Position where
  part : Nat
  /-- How many names were followed. -/
  jumps : Nat

/-- The part at a position. -/
def peek (s : Script) (p : Position) : Except ParseError (Part × Mark) :=
  match s.parts[p.part]? with
  | some part => .ok part
  | none => .error (s.stop.getD .unfinished)

/-- The position after a part. -/
def Position.next (p : Position) : Position := { p with part := p.part + 1 }

/-- Follows a name. -/
def jump (s : Script) (p : Position) (number : Nat) : Except ParseError Position :=
  let jumps := p.jumps + 1
  if s.parts.size * 100 < jumps then .error .tooManyAliases
  else
    match s.anchors.targets.lookup number with
    | some target => .ok ⟨target, jumps⟩
    | none => .error .unfinished

/-- Whether a tag is one of the application. -/
def isLocal (tag : Option String) : Bool := tag.any fun tag => tag.toList.head? = some '!'

/-- The value of a scalar. -/
def scalarValue (tag : Option String) (text : String) (style : ScalarStyle) : Except Mismatch Json :=
  match tag, style with
  | some tag, _ => Plain.taggedValue tag text
  | none, .plain => Plain.value text
  | none, _ => .ok (.string text)

/-- Fails with what cannot be part of a JSON value. -/
def refuse {α : Type} (misfit : Misfit) (path : Path) (mark : Mark) : Except ParseError α :=
  .error (.unusable misfit path mark)

/-- The text of a key that is no name. -/
def keyText (path : Path) (isFirst : Bool) (mark : Mark) : Part → Except ParseError String
  | .event (.scalar _ text _) => .ok text
  | .event (.mappingStart _) => refuse (.collectionKey true isFirst) path mark
  | _ => refuse (.collectionKey false isFirst) path mark

/-- Reads a key; gives its text, the step to its value and the position after it. -/
def readKey (s : Script) (path : Path) (isFirst : Bool) (p : Position) :
    Except ParseError (String × PathStep × Position) := do
  match ← s.peek p with
  | (.alias number, _) =>
    let target ← s.jump p number
    let (part, mark) ← s.peek target
    pure (← keyText path isFirst mark part, .unnamed, { p.next with jumps := target.jumps })
  | (part, mark) =>
    let text ← keyText path isFirst mark part
    pure (text, .key text, p.next)

mutual

/-- Reads a value that may nest so deep. -/
def readValue (s : Script) (fuel depth : Nat) (path : Path) (p : Position) :
    Except ParseError (Json × Position) :=
  match fuel with
  | 0 => .error .unfinished
  | fuel + 1 =>
    match s.peek p with
    | .error e => .error e
    | .ok (.alias number, _) =>
      match s.jump p number with
      | .error e => .error e
      | .ok target =>
        (readValue s fuel depth path target).map fun (value, after) =>
          (value, { p.next with jumps := after.jumps })
    | .ok (.event (.scalar properties text style), mark) =>
      if isLocal properties.tag then refuse .localTag path mark
      else
        match scalarValue properties.tag text style with
        | .ok value => .ok (value, p.next)
        | .error mismatch => refuse (.scalar mismatch) path mark
    | .ok (.event (.sequenceStart properties), mark) =>
      if isLocal properties.tag then refuse .localTag path mark
      else if depth = 0 then .error (.tooDeep mark)
      else readItems s fuel (depth - 1) path [] p.next
    | .ok (.event (.mappingStart properties), mark) =>
      if isLocal properties.tag then refuse .localTag path mark
      else if depth = 0 then .error (.tooDeep mark)
      else readMembers s fuel (depth - 1) path [] p.next
    | .ok (.event _, _) => .error .unfinished
termination_by structural fuel

/-- Reads the items of a sequence after those that were read, last first. -/
def readItems (s : Script) (fuel depth : Nat) (path : Path) (items : List Json) (p : Position) :
    Except ParseError (Json × Position) :=
  match fuel with
  | 0 => .error .unfinished
  | fuel + 1 =>
    match s.peek p with
    | .error e => .error e
    | .ok (.event .sequenceEnd, _) => .ok (.array items.reverse, p.next)
    | .ok _ =>
      match readValue s fuel depth (.index items.length :: path) p with
      | .ok (item, p) => readItems s fuel depth path (item :: items) p
      | .error e => .error e
termination_by structural fuel

/-- Reads the members of a mapping after those that were read, last first. -/
def readMembers (s : Script) (fuel depth : Nat) (path : Path) (members : List (String × Json))
    (p : Position) : Except ParseError (Json × Position) :=
  match fuel with
  | 0 => .error .unfinished
  | fuel + 1 =>
    match s.peek p with
    | .error e => .error e
    | .ok (.event .mappingEnd, _) => .ok (.ofMembers members.reverse, p.next)
    | .ok _ =>
      match s.readKey path members.isEmpty p with
      | .error e => .error e
      | .ok (key, step, p) =>
        match readValue s fuel depth (step :: path) p with
        | .ok (value, p) => readMembers s fuel depth path ((key, value) :: members) p
        | .error e => .error e
termination_by structural fuel

end

/-- How deep collections may nest. -/
def maxDepth : Nat := 128

/-- The value of a script. Reading takes a step for each part and each end, and so again for each name
that is followed. -/
def value (s : Script) : Except ParseError Json :=
  let fuel := (2 * s.parts.size + 2) * (100 * s.parts.size + 2)
  match s.readValue fuel maxDepth [] ⟨0, 0⟩, s.stop with
  | .ok (value, _), none => .ok value
  | .ok _, some error => .error error
  | .error error, _ => .error error

end Script

/-- The JSON value of a text. A text without documents is null. -/
def parse (text : String) : Except ParseError Json :=
  let document := FirstDocument.ofText text
  if document.events.isEmpty && document.error.isNone then .ok .null
  else
    match (Script.ofDocument document).value with
    | .ok value => if document.alone then .ok value else .error .manyDocuments
    | .error error => .error error

end Credential.Yaml
