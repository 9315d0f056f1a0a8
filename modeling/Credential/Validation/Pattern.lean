import Credential.Numeral
/-!
# Credential.Validation.Pattern — regular expressions

A pattern is searched for anywhere in a text; `^` and `$` stand for its ends. `Pattern.parse?` reads
the usual notation: classes in brackets, `\d`, `\w`, `\s` and their opposites, groups, alternatives and
the counts `*`, `+`, `?` and those in braces. Capturing, greediness and names of groups have no
influence on whether a text matches, and are read over.

Matching follows sets of places: `Pattern.ends` lists where a match that starts at one place can end,
a place being given by the characters after it.
-/

namespace Credential.Validation

/-- A set of characters: some ranges, or all characters outside of them. -/
structure CharSet where
  ranges : List (Char × Char)
  negated : Bool
  deriving DecidableEq

namespace CharSet

/-- The set of one character. -/
def single (c : Char) : CharSet := ⟨[(c, c)], false⟩

/-- Whether a character is in the set. -/
def contains (s : CharSet) (c : Char) : Bool :=
  (s.ranges.any fun r => r.1 ≤ c && c ≤ r.2) != s.negated

/-- The ASCII digits. -/
def digits : List (Char × Char) := [('0', '9')]

/-- The ASCII letters, digits and the underscore. -/
def wordChars : List (Char × Char) := [('a', 'z'), ('A', 'Z'), ('0', '9'), ('_', '_')]

/-- The blanks and line ends. -/
def blanks : List (Char × Char) :=
  [('\t', '\r'), (' ', ' '), ('\u00a0', '\u00a0'), ('\u1680', '\u1680'), ('\u2000', '\u200a'),
    ('\u2028', '\u2029'), ('\u202f', '\u202f'), ('\u205f', '\u205f'), ('\u3000', '\u3000'),
    ('\ufeff', '\ufeff')]

/-- Every character but the line feed. -/
def notNewline : CharSet := ⟨[('\n', '\n')], true⟩

/-- The ranges outside of some ranges, which are in ascending order and do not overlap. -/
def outside (low : Nat) : List (Char × Char) → List (Char × Char)
  | [] => [(Char.ofNat low, Char.ofNat 0x10ffff)]
  | (a, b) :: rest =>
    let later := outside (b.toNat + 1) rest
    if low < a.toNat then (Char.ofNat low, Char.ofNat (a.toNat - 1)) :: later else later

end CharSet

/-- A regular expression. -/
inductive Pattern where
  | empty
  | char (set : CharSet)
  /-- The start of the text. -/
  | start
  /-- The end of the text. -/
  | finish
  /-- A place between a word character and another one, or any other place if `negated`. -/
  | wordEdge (negated : Bool)
  | seq (first second : Pattern)
  | alt (first second : Pattern)
  /-- Any number of times. -/
  | star (body : Pattern)
  deriving DecidableEq

namespace Pattern

/-! ## Matching -/

/-- A place in a text: the character before it, if any, and those after it. -/
structure Place where
  before : Option Char
  after : List Char
  deriving DecidableEq

/-- Whether a place lies at the edge of a word. -/
def Place.isWordEdge (p : Place) : Bool :=
  let isWord (c : Option Char) := c.any fun c => (CharSet.mk CharSet.wordChars false).contains c
  isWord p.before != isWord p.after.head?

/-- All places reached from some by repeated steps, given a bound on their number. -/
def closure (step : Place → List Place) : Nat → List Place → List Place
  | 0, found => found
  | n + 1, found =>
    let fresh := (found.flatMap step).filter fun p => !found.contains p
    if fresh.isEmpty then found else closure step n (found ++ fresh.eraseDups)

/-- Where a match that starts at a place can end. -/
def ends : Pattern → Place → List Place
  | .empty, p => [p]
  | .char set, p =>
    match p.after with
    | [] => []
    | c :: rest => if set.contains c then [⟨some c, rest⟩] else []
  | .start, p => if p.before.isNone then [p] else []
  | .finish, p => if p.after.isEmpty then [p] else []
  | .wordEdge negated, p => if p.isWordEdge != negated then [p] else []
  | .seq a b, p => ((ends a p).flatMap (ends b)).eraseDups
  | .alt a b, p => (ends a p ++ ends b p).eraseDups
  | .star a, p => closure (ends a) (p.after.length + 1) [p]

/-- Whether some match starts at a place or after it. -/
def matchesFrom (pattern : Pattern) (before : Option Char) : List Char → Bool
  | [] => !(pattern.ends ⟨before, []⟩).isEmpty
  | c :: rest =>
    !(pattern.ends ⟨before, c :: rest⟩).isEmpty || pattern.matchesFrom (some c) rest

/-- Whether the pattern matches somewhere in a text. -/
def matchesIn (pattern : Pattern) (text : String) : Bool := pattern.matchesFrom none text.toList

/-! ## Reading -/

/-- A pattern a number of times. -/
def times (a : Pattern) : Nat → Pattern
  | 0 => .empty
  | n + 1 => .seq a (times a n)

/-- A pattern at most a number of times. -/
def atMost (a : Pattern) : Nat → Pattern
  | 0 => .empty
  | n + 1 => .alt .empty (.seq a (atMost a n))

/-- A decimal numeral at the start of some characters, and the rest. -/
def numeral? (cs : List Char) : Option (Nat × List Char) :=
  let ds := cs.takeWhile Char.isDigit
  if ds.isEmpty then none
  else some (Numeral.decimal ds, cs.dropWhile Char.isDigit)

/-- The largest count that may be written. -/
def countLimit : Nat := 1000

/-- The bounds of a count in braces, after the opening one, and the rest. -/
def bounds? (cs : List Char) : Option ((Nat × Option Nat) × List Char) := do
  let (low, rest) ← numeral? cs
  match rest with
  | '\x7d' :: rest => pure ((low, some low), rest)
  | ',' :: '\x7d' :: rest => pure ((low, none), rest)
  | ',' :: rest =>
    let (high, rest) ← numeral? rest
    match rest with
    | '\x7d' :: rest => if low ≤ high then pure ((low, some high), rest) else none
    | _ => none
  | _ => none

/-- A count applied to a pattern; none if the bounds are too large. -/
def repeated? (a : Pattern) (low : Nat) (high : Option Nat) : Option Pattern :=
  if countLimit < low || countLimit < high.getD 0 then none
  else
    match high with
    | none => some (.seq (times a low) (.star a))
    | some high => some (.seq (times a low) (atMost a (high - low)))

/-- Counts after a pattern, and the rest; a count may be followed by a lone `?`. -/
def counted? : Nat → Pattern → List Char → Option (Pattern × List Char)
  | 0, _, _ => none
  | fuel + 1, a, cs =>
    let lazily (rest : List Char) := match rest with
      | '?' :: rest => rest
      | rest => rest
    match cs with
    | '*' :: rest => counted? fuel (.star a) (lazily rest)
    | '+' :: rest => counted? fuel (.seq a (.star a)) (lazily rest)
    | '?' :: rest => counted? fuel (.alt .empty a) (lazily rest)
    | '\x7b' :: rest =>
      match bounds? rest with
      | none => none
      | some ((low, high), rest) =>
        (repeated? a low high).bind fun b => counted? fuel b (lazily rest)
    | rest => some (a, rest)

/-- The character of a code written with a number of hexadecimal digits, and the rest. -/
def coded? (count : Nat) (cs : List Char) : Option (Char × List Char) :=
  if cs.length < count then none
  else (Numeral.value? 16 (cs.take count)).map fun n => (Char.ofNat n, cs.drop count)

/-- The ranges of a class escape such as `\d`. -/
def classEscape? : Char → Option (List (Char × Char))
  | 'd' => some CharSet.digits
  | 'w' => some CharSet.wordChars
  | 's' => some CharSet.blanks
  | 'D' => some (CharSet.outside 0 CharSet.digits)
  | 'W' => some (CharSet.outside 0 [('0', '9'), ('A', 'Z'), ('_', '_'), ('a', 'z')])
  | 'S' => some (CharSet.outside 0 CharSet.blanks)
  | _ => none

/-- The character of an escape, after the backslash, and the rest; letters and digits without a
meaning of their own may not be escaped. -/
def charEscape? : List Char → Option (Char × List Char)
  | 'n' :: rest => some ('\n', rest)
  | 'r' :: rest => some ('\r', rest)
  | 't' :: rest => some ('\t', rest)
  | 'f' :: rest => some (Char.ofNat 12, rest)
  | 'v' :: rest => some (Char.ofNat 11, rest)
  | 'x' :: rest => coded? 2 rest
  | 'u' :: rest => coded? 4 rest
  | c :: rest => if c.isAlphanum then none else some (c, rest)
  | [] => none

/-- One entry of a class in brackets: a character, or the ranges of an escape. -/
def classEntry? : List Char → Option ((Char ⊕ List (Char × Char)) × List Char)
  | '\\' :: 'b' :: rest => some (.inl (Char.ofNat 8), rest)
  | '\\' :: c :: rest =>
    match classEscape? c with
    | some ranges => some (.inr ranges, rest)
    | none => (charEscape? (c :: rest)).map fun (c, rest) => (.inl c, rest)
  | c :: rest => some (.inl c, rest)
  | [] => none

/-- The ranges of a class up to its closing bracket, and the rest. -/
def classRanges? : Nat → List Char → Option (List (Char × Char) × List Char)
  | 0, _ => none
  | _ + 1, ']' :: rest => some ([], rest)
  | fuel + 1, cs =>
    match classEntry? cs with
    | none => none
    | some (.inr ranges, rest) =>
      (classRanges? fuel rest).map fun (more, rest) => (ranges ++ more, rest)
    | some (.inl a, '-' :: ']' :: rest) => some ([(a, a), ('-', '-')], rest)
    | some (.inl a, '-' :: rest) =>
      match classEntry? rest with
      | some (.inl b, rest) =>
        if a ≤ b then (classRanges? fuel rest).map fun (more, rest) => ((a, b) :: more, rest)
        else none
      | _ => none
    | some (.inl a, rest) =>
      (classRanges? fuel rest).map fun (more, rest) => ((a, a) :: more, rest)

/-- The class after an opening bracket, and the rest. A bracket that closes at once stands for
itself. -/
def class? (cs : List Char) : Option (Pattern × List Char) :=
  let (negated, cs) : Bool × List Char := match cs with
    | '^' :: rest => (true, rest)
    | rest => (false, rest)
  let read : Option (List (Char × Char) × List Char) := match cs with
    | ']' :: rest =>
      (classRanges? (rest.length + 1) rest).map fun (more, rest) => ((']', ']') :: more, rest)
    | rest => classRanges? (rest.length + 1) rest
  read.map fun (ranges, rest) => (.char ⟨ranges, negated⟩, rest)

/-- What stands after a backslash, and the rest. -/
def escape? : List Char → Option (Pattern × List Char)
  | 'b' :: rest => some (.wordEdge false, rest)
  | 'B' :: rest => some (.wordEdge true, rest)
  | c :: rest =>
    match classEscape? c with
    | some ranges => some (.char ⟨ranges, false⟩, rest)
    | none => (charEscape? (c :: rest)).map fun (c, rest) => (.char (.single c), rest)
  | [] => none

mutual

/-- Alternatives, and the rest. -/
def alternatives? : Nat → List Char → Option (Pattern × List Char)
  | 0, _ => none
  | fuel + 1, cs =>
    match sequence? fuel cs with
    | some (a, '|' :: rest) =>
      (alternatives? fuel rest).map fun (b, rest) => (Pattern.alt a b, rest)
    | other => other

/-- Parts one after the other up to a bar or a closing parenthesis, and the rest. -/
def sequence? : Nat → List Char → Option (Pattern × List Char)
  | 0, _ => none
  | _ + 1, [] => some (.empty, [])
  | _ + 1, '|' :: rest => some (.empty, '|' :: rest)
  | _ + 1, ')' :: rest => some (.empty, ')' :: rest)
  | fuel + 1, cs =>
    match part? fuel cs with
    | none => none
    | some (a, rest) =>
      match counted? (rest.length + 1) a rest with
      | none => none
      | some (a, rest) => (sequence? fuel rest).map fun (b, rest) => (.seq a b, rest)

/-- One part: a character, a class, an anchor or a group, and the rest. -/
def part? : Nat → List Char → Option (Pattern × List Char)
  | 0, _ => none
  | _ + 1, [] => none
  | fuel + 1, c :: cs =>
    match c, cs with
    | '^', _ => some (.start, cs)
    | '$', _ => some (.finish, cs)
    | '.', _ => some (.char CharSet.notNewline, cs)
    | '[', _ => class? cs
    | '\\', _ => escape? cs
    | '(', '?' :: ':' :: rest => group? fuel rest
    | '(', '?' :: '<' :: rest =>
      match rest.dropWhile (fun c => c.isAlphanum || c = '_') with
      | '>' :: rest => group? fuel rest
      | _ => none
    | '(', '?' :: _ => none
    | '(', _ => group? fuel cs
    | '*', _ => none
    | '+', _ => none
    | '?', _ => none
    | '\x7b', _ => none
    | _, _ => some (.char (.single c), cs)

/-- The inside of a group up to its closing parenthesis, and the rest. -/
def group? : Nat → List Char → Option (Pattern × List Char)
  | 0, _ => none
  | fuel + 1, cs =>
    match alternatives? fuel cs with
    | some (a, ')' :: rest) => some (a, rest)
    | _ => none

end

/-- The pattern of a text, if it is well-formed. -/
def parse? (text : String) : Option Pattern :=
  let cs := text.toList
  match alternatives? (4 * cs.length + 4) cs with
  | some (a, []) => some a
  | _ => none

end Pattern

end Credential.Validation
