import Credential.Yaml.Cursor
/-!
# Credential.Yaml.Scalar — the texts of scalars

A plain or quoted scalar may go on over several lines. The blanks around a line end are dropped; a single
line end becomes a space, and of several the first is dropped. A block scalar keeps its lines; if it is
folded, a line end between two lines that do not start with a blank becomes a space.
-/

namespace Credential.Yaml

/-! ## Between the words of a scalar -/

/-- The blanks and line ends between two parts of a scalar. -/
structure Gap where
  blanks : List Char
  firstBreak : List Char
  laterBreaks : List Char
  /-- Whether a line end was met. -/
  broken : Bool
  deriving Inhabited

namespace Gap

/-- Nothing between two parts. -/
def none : Gap := ⟨[], [], [], false⟩

/-- What a gap becomes in the text. -/
def text (g : Gap) : List Char :=
  if !g.broken then g.blanks
  else if g.firstBreak.head? = some '\n' then
    if g.laterBreaks.isEmpty then [' '] else g.laterBreaks
  else g.firstBreak ++ g.laterBreaks

/-- Reads blanks and line ends. A tab before the column `tabLimit` of a further line is an error. -/
def read (tabLimit : Option Nat) : Nat → Gap → Cursor → Except Cursor (Gap × Cursor)
  | 0, g, c => .ok (g, c)
  | fuel + 1, g, c =>
    if c.atBlank then
      if g.broken && c.isAt '\t' && tabLimit.any (c.mark.column < ·) then .error c
      else if g.broken then read tabLimit fuel g (c.skip 1)
      else read tabLimit fuel { g with blanks := g.blanks ++ c.rest.take 1 } (c.skip 1)
    else if c.atBreak then
      let (lineEnd, c') := c.readBreak
      if g.broken then read tabLimit fuel { g with laterBreaks := g.laterBreaks ++ lineEnd } c'
      else read tabLimit fuel { g with blanks := [], firstBreak := lineEnd, broken := true } c'
    else .ok (g, c)

end Gap

/-! ## Plain scalars -/

/-- What ended a run of characters of a plain scalar. -/
inductive PlainStop where
  | regular
  /-- A colon right before another indicator, inside brackets. -/
  | colon
  deriving DecidableEq

/-- The characters of a plain scalar up to a blank or an indicator that ends it. -/
def plainRun (inFlow : Bool) : List Char → List Char × PlainStop
  | [] => ([], .regular)
  | c :: cs =>
    let next := cs.head?
    if isBlank c || isBreak c then ([], .regular)
    else if inFlow && c = ':' && next.any (",?[]\x7b\x7d".toList.contains ·) then ([], .colon)
    else if c = ':' && isBlankOrEnd next then ([], .regular)
    else if inFlow && ",[]\x7b\x7d".toList.contains c then ([], .regular)
    else
      let (run, stop) := plainRun inFlow cs
      (c :: run, stop)

/-- A scalar that was read: its text, where it ends and where reading goes on. -/
structure ScalarRead where
  text : List Char
  finish : Mark
  cursor : Cursor
  /-- Whether a line end came after the last part of the text. -/
  broken : Bool

/-- Reads on in a plain scalar. Outside of brackets it ends at a line that is not indented. -/
def plainFrom (inFlow : Bool) (limit : Nat) (began : Mark) :
    Nat → List Char → Gap → Mark → Cursor → Except SyntaxError ScalarRead
  | 0, text, gap, finish, c => .ok ⟨text, finish, c, gap.broken⟩
  | fuel + 1, text, gap, finish, c =>
    if c.atDocumentMarker || c.isAt '#' then .ok ⟨text, finish, c, gap.broken⟩
    else
      let (run, stop) := plainRun inFlow c.rest
      let c := c.skip run.length
      let (text, gap, finish) :=
        if run.isEmpty then (text, gap, finish) else (text ++ gap.text ++ run, Gap.none, c.mark)
      if stop = .colon then complain c .unexpectedColon .plainScalar began
      else if !(c.atBlank || c.atBreak) then .ok ⟨text, finish, c, gap.broken⟩
      else
        match Gap.read (some limit) c.rest.length gap c with
        | .error c => complain c .tabIndentation .plainScalar began
        | .ok (gap, c) =>
          if !inFlow && c.mark.column < limit then .ok ⟨text, finish, c, gap.broken⟩
          else plainFrom inFlow limit began fuel text gap finish c

/-- Reads a plain scalar. -/
def readPlain (inFlow : Bool) (limit : Nat) (c : Cursor) : Except SyntaxError ScalarRead :=
  plainFrom inFlow limit c.mark (c.rest.length + 1) [] .none c.mark c

/-! ## Quoted scalars -/

/-- The character of an escape of one letter. -/
def escapedChar? : Char → Option Char
  | '0' => some (Char.ofNat 0)
  | 'a' => some (Char.ofNat 7)
  | 'b' => some (Char.ofNat 8)
  | 't' => some '\t'
  | '\t' => some '\t'
  | 'n' => some '\n'
  | 'v' => some (Char.ofNat 11)
  | 'f' => some (Char.ofNat 12)
  | 'r' => some '\r'
  | 'e' => some (Char.ofNat 27)
  | ' ' => some ' '
  | '"' => some '"'
  | '/' => some '/'
  | '\\' => some '\\'
  | 'N' => some '\u0085'
  | '_' => some '\u00a0'
  | 'L' => some '\u2028'
  | 'P' => some '\u2029'
  | _ => none

/-- The number of hexadecimal digits after an escape that takes a code. -/
def codeLength? : Char → Option Nat
  | 'x' => some 2
  | 'u' => some 4
  | 'U' => some 8
  | _ => none

/-- The value of hexadecimal digits; all of the given number have to be there. -/
def hexNumber? (count : Nat) (cs : List Char) : Option Nat :=
  if (cs.take count).length = count then
    Numeral.value? 16 (cs.take count)
  else none

/-- Reads an escape, after its backslash. -/
def readEscape (began : Mark) (c : Cursor) : Except SyntaxError (Char × Cursor) :=
  match c.peekAt? 1 with
  | none => complain c .unknownEscape .quotedEscape began
  | some letter =>
    match escapedChar? letter, codeLength? letter with
    | some d, _ => .ok (d, c.skip 2)
    | none, none => complain c .unknownEscape .quotedEscape began
    | none, some count =>
      let c := c.skip 2
      match hexNumber? count c.rest with
      | none => complain c .noHexNumber .quotedEscape began
      | some n =>
        if 0xd800 ≤ n && n ≤ 0xdfff || 0x10ffff < n then
          complain c .badEscapeCode .quotedEscape began
        else .ok (Char.ofNat n, c.skip count)

/-- The quotation mark of a style. -/
def quoteMark (single : Bool) : Char := if single then '\'' else '"'

/-- Reads the characters of a quoted scalar up to a blank, a line end or the closing mark; tells whether
the run ended in an escaped line end. -/
def quotedRun (single : Bool) (began : Mark) :
    Nat → List Char → Cursor → Except SyntaxError (List Char × Bool × Cursor)
  | 0, text, c => .ok (text, false, c)
  | fuel + 1, text, c =>
    match c.rest with
    | [] => .ok (text, false, c)
    | d :: more =>
      if isBlank d || isBreak d then .ok (text, false, c)
      else if single && d = '\'' && more.head? = some '\'' then
        quotedRun single began fuel (text ++ ['\'']) (c.skip 2)
      else if d = quoteMark single then .ok (text, false, c)
      else if !single && d = '\\' && more.head?.any isBreak then
        .ok (text, true, (c.skip 1).skipBreak)
      else if !single && d = '\\' then
        match readEscape began c with
        | .ok (e, c) => quotedRun single began fuel (text ++ [e]) c
        | .error e => .error e
      else quotedRun single began fuel (text ++ [d]) (c.skip 1)

/-- Reads on in a quoted scalar up to its closing mark. -/
def quotedFrom (single : Bool) (began : Mark) :
    Nat → List Char → Cursor → Except SyntaxError ScalarRead
  | 0, _, c => complain c .endOfStream .quotedScalar began
  | fuel + 1, text, c =>
    if c.atDocumentMarker then complain c .documentIndicator .quotedScalar began
    else if c.atEnd then complain c .endOfStream .quotedScalar began
    else
      match quotedRun single began (c.rest.length + 1) text c with
      | .error e => .error e
      | .ok (text, escapedBreak, c) =>
        if c.isAt (quoteMark single) then
          let c := c.skip 1
          .ok ⟨text, c.mark, c, false⟩
        else
          match Gap.read none c.rest.length { Gap.none with broken := escapedBreak } c with
          | .error c => complain c .endOfStream .quotedScalar began
          | .ok (gap, c) => quotedFrom single began fuel (text ++ gap.text) c

/-- Reads a quoted scalar. -/
def readQuoted (single : Bool) (c : Cursor) : Except SyntaxError ScalarRead :=
  quotedFrom single c.mark (c.rest.length + 1) [] (c.skip 1)

/-! ## Block scalars -/

/-- What becomes of the line ends after a block scalar. -/
inductive Chomping where
  | strip
  | clip
  | keep
  deriving DecidableEq

/-- Reads the mark for the line ends, if one follows. -/
def readChomping (c : Cursor) : Option Chomping × Cursor :=
  if c.isAt '+' then (some .keep, c.skip 1)
  else if c.isAt '-' then (some .strip, c.skip 1)
  else (none, c)

/-- Reads the number of spaces by which a block scalar is indented, if it is given. -/
def readIncrement (began : Mark) (c : Cursor) : Except SyntaxError (Option Nat × Cursor) :=
  match c.peek? with
  | some d =>
    if d = '0' then complain c .zeroIndentation .blockScalar began
    else if d.isDigit then .ok (some (Numeral.decimalDigit d), c.skip 1)
    else .ok (none, c)
  | none => .ok (none, c)

/-- Reads the marks behind the indicator of a block scalar, in either order. -/
def readHeader (began : Mark) (c : Cursor) :
    Except SyntaxError (Chomping × Option Nat × Cursor) := do
  match readChomping c with
  | (some chomping, c) =>
    let (increment, c) ← readIncrement began c
    pure (chomping, increment, c)
  | (none, c) =>
    match ← readIncrement began c with
    | (none, c) => pure (.clip, none, c)
    | (some n, c) =>
      let (chomping, c) := readChomping c
      pure (chomping.getD .clip, some n, c)

/-- Reads empty lines and the indentation of the line after them. With no indentation known yet, all
spaces count and the greatest column met is kept. -/
def blockBreaks (began : Mark) (indent : Option Nat) :
    Nat → Nat → List Char → Mark → Cursor → Except SyntaxError (Nat × List Char × Mark × Cursor)
  | 0, widest, breaks, finish, c => .ok (widest, breaks, finish, c)
  | fuel + 1, widest, breaks, finish, c =>
    let isWithin (column : Nat) : Bool := indent.all (column < ·)
    let spaces := (c.rest.takeWhile (· = ' ')).length
    let c := c.skip (match indent with
      | none => spaces
      | some n => min spaces (n - c.mark.column))
    let widest := max widest c.mark.column
    if isWithin c.mark.column && c.isAt '\t' then complain c .tabForSpace .blockScalar began
    else if !c.atBreak then .ok (widest, breaks, finish, c)
    else
      let (lineEnd, c) := c.readBreak
      blockBreaks began indent fuel widest (breaks ++ lineEnd) c.mark c

/-- The parts of a block scalar while it is read. -/
structure BlockText where
  text : List Char
  lineEnd : List Char
  laterEnds : List Char
  /-- Whether the line before started with a blank. -/
  blankBefore : Bool

/-- The text with the line ends before a further line. -/
def BlockText.joined (folded : Bool) (b : BlockText) (blankNow : Bool) : List Char :=
  if folded && b.lineEnd.head? = some '\n' && !b.blankBefore && !blankNow then
    b.text ++ (if b.laterEnds.isEmpty then [' '] else b.laterEnds)
  else b.text ++ b.lineEnd ++ b.laterEnds

/-- Reads the lines of a block scalar. -/
def blockLines (folded : Bool) (began : Mark) (indent : Nat) :
    Nat → BlockText → Mark → Cursor → Except SyntaxError (BlockText × Mark × Cursor)
  | 0, b, finish, c => .ok (b, finish, c)
  | fuel + 1, b, finish, c =>
    if c.mark.column ≠ indent || c.atEnd then .ok (b, finish, c)
    else
      let blankNow := c.atBlank
      let line := c.rest.takeWhile (!isBreak ·)
      let (lineEnd, c) := (c.skip line.length).readBreak
      let text := b.joined folded blankNow ++ line
      match blockBreaks began (some indent) (c.rest.length + 1) 0 [] c.mark c with
      | .error e => .error e
      | .ok (_, laterEnds, finish, c) =>
        blockLines folded began indent fuel ⟨text, lineEnd, laterEnds, blankNow⟩ finish c

/-- Reads a block scalar; `outer` is the column of the collection around it, if there is one. -/
def readBlock (folded : Bool) (outer : Option Nat) (c : Cursor) : Except SyntaxError ScalarRead := do
  let began := c.mark
  let (chomping, increment, c) ← readHeader began (c.skip 1)
  let c := c.skipBlanks.skipComment
  if !(c.atBreak || c.atEnd) then complain c .directiveEnd .blockScalar began
  let c := c.skipBreak
  let given := increment.map (· + outer.getD 0)
  let (widest, breaks, finish, c) ← blockBreaks began given (c.rest.length + 1) 0 [] c.mark c
  let least := match outer with
    | some n => n + 1
    | none => 1
  let indent := given.getD (max widest least)
  let first : BlockText := ⟨[], [], breaks, false⟩
  let (b, finish, c) ← blockLines folded began indent (c.rest.length + 1) first finish c
  let text := match chomping with
    | .strip => b.text
    | .clip => b.text ++ b.lineEnd
    | .keep => b.text ++ b.lineEnd ++ b.laterEnds
  pure ⟨text, finish, c, false⟩

end Credential.Yaml
