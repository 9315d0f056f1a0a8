/-!
# Credential.Text — blanks, parts and replacements

A blank is any character that Unicode gives the property of white space; `Text.trim` takes the blanks
off both ends of a text. `Text.splitAt` cuts a text at all places of a character. A character, or two in a
row, are replaced wherever they stand.
-/

namespace Credential.Text

/-! ## Blanks -/

/-- The ranges of code points that are white space. -/
def blankRanges : List (Nat × Nat) :=
  [(0x9, 0xd), (0x20, 0x20), (0x85, 0x85), (0xa0, 0xa0), (0x1680, 0x1680), (0x2000, 0x200a),
    (0x2028, 0x2029), (0x202f, 0x202f), (0x205f, 0x205f), (0x3000, 0x3000)]

/-- Whether a character is white space. -/
def isBlank (c : Char) : Bool := blankRanges.any fun r => r.1 ≤ c.toNat && c.toNat ≤ r.2

/-- The characters without the blanks at both ends. -/
def trimChars (cs : List Char) : List Char :=
  ((cs.dropWhile isBlank).reverse.dropWhile isBlank).reverse

/-- The text without the blanks at both ends. -/
def trim (text : String) : String := String.ofList (trimChars text.toList)

/-! ## Parts -/

/-- The parts of some characters between the places of a given one; there is at least one part. -/
def splitAt (mark : Char) : List Char → List (List Char)
  | [] => [[]]
  | c :: cs =>
    if c = mark then [] :: splitAt mark cs
    else
      match splitAt mark cs with
      | part :: rest => (c :: part) :: rest
      | [] => [[c]]

/-! ## Replacements -/

/-- Some characters with others in every place of a given one. -/
def replaceChar (mark : Char) (others cs : List Char) : List Char :=
  cs.flatMap fun c => if c = mark then others else [c]

/-- Some characters with one in every place of a given pair, from left to right. -/
def replacePair (first second one : Char) : List Char → List Char
  | c :: d :: cs =>
    if c = first ∧ d = second then one :: replacePair first second one cs
    else c :: replacePair first second one (d :: cs)
  | cs => cs

end Credential.Text
