import Credential.Numeral
import Credential.Yaml.Error
/-!
# Credential.Yaml.Cursor — reading a YAML text from left to right

A cursor is the rest of a text and its place. A line ends at a carriage return, a line feed, both in this
order, or one of three more line ends of Unicode.
-/

namespace Credential.Yaml

/-! ## Characters -/

/-- A character that ends a line. -/
def isBreak (c : Char) : Bool := ['\r', '\n', '\u0085', '\u2028', '\u2029'].contains c

/-- A space or a tab. -/
def isBlank (c : Char) : Bool := c = ' ' || c = '\t'

/-- A blank, a line end, or the end of the text. -/
def isBlankOrEnd : Option Char → Bool
  | none => true
  | some c => isBlank c || isBreak c

/-- A character of a name. -/
def isWordChar (c : Char) : Bool := c.isAlphanum || c = '_' || c = '-'

/-- A character that may stand in a YAML text. -/
def isPrintable (c : Char) : Bool :=
  let n := c.toNat
  c = '\t' || c = '\n' || c = '\r' || 0x20 ≤ n && n ≤ 0x7e || n = 0x85
    || 0xa0 ≤ n && n ≤ 0xfffd || 0x10000 ≤ n

/-! ## Cursors -/

/-- The rest of a text and its place. -/
structure Cursor where
  rest : List Char
  mark : Mark
  deriving Inhabited

namespace Cursor

/-- The cursor at the start of a text. -/
def ofText (cs : List Char) : Cursor := ⟨cs, .start⟩

/-- The next character. -/
def peek? (c : Cursor) : Option Char := c.rest.head?

/-- The character after a number of others. -/
def peekAt? (c : Cursor) (n : Nat) : Option Char := c.rest[n]?

/-- Whether the next character is a given one. -/
def isAt (c : Cursor) (d : Char) : Bool := c.peek? = some d

/-- Whether the text is at its end. -/
def atEnd (c : Cursor) : Bool := c.rest.isEmpty

/-- Whether the next character is a blank. -/
def atBlank (c : Cursor) : Bool := c.peek?.any isBlank

/-- Whether the next character ends the line. -/
def atBreak (c : Cursor) : Bool := c.peek?.any isBreak

/-- Whether a blank, the end of the line or the end of the text follows. -/
def atBlankOrEnd (c : Cursor) : Bool := isBlankOrEnd c.peek?

/-- Goes over some characters of the line. -/
def skip (c : Cursor) (n : Nat) : Cursor :=
  ⟨c.rest.drop n, { c.mark with index := c.mark.index + n, column := c.mark.column + n }⟩

/-- Goes over the characters of a class. -/
def skipWhile (c : Cursor) (p : Char → Bool) : Cursor := c.skip (c.rest.takeWhile p).length

/-- Goes to the next line, over a number of characters. -/
def nextLine (c : Cursor) (n : Nat) : Cursor :=
  ⟨c.rest.drop n, ⟨c.mark.index + n, c.mark.line + 1, 0⟩⟩

/-- The line end that follows, as it is kept in a scalar, and the cursor after it. -/
def readBreak (c : Cursor) : List Char × Cursor :=
  match c.rest with
  | '\r' :: '\n' :: _ => (['\n'], c.nextLine 2)
  | d :: _ =>
    if d = '\u2028' || d = '\u2029' then ([d], c.nextLine 1)
    else if isBreak d then (['\n'], c.nextLine 1)
    else ([], c)
  | [] => ([], c)

/-- Goes over the line end that follows. -/
def skipBreak (c : Cursor) : Cursor := c.readBreak.2

/-- Goes over blanks. -/
def skipBlanks (c : Cursor) : Cursor := c.skipWhile isBlank

/-- Goes over a comment, if one follows. -/
def skipComment (c : Cursor) : Cursor := if c.isAt '#' then c.skipWhile (!isBreak ·) else c

/-- Whether three given characters follow at the start of a line, as a mark between documents. -/
def atMarker (c : Cursor) (marker : String) : Bool :=
  c.mark.column = 0 && marker.toList.isPrefixOf c.rest && isBlankOrEnd (c.peekAt? 3)

/-- Whether a mark between documents follows. -/
def atDocumentMarker (c : Cursor) : Bool := c.atMarker "---" || c.atMarker "..."

end Cursor

/-- An error at the place of a cursor, found while reading something. -/
def complain {α : Type} (c : Cursor) (complaint : Complaint) (reading : Reading) (began : Mark) :
    Except SyntaxError α :=
  .error ⟨complaint, c.mark, some (reading, began)⟩

end Credential.Yaml
