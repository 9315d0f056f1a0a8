/-!
# Credential.Url.Punycode — labels of host names in ASCII

A label of a host name with characters outside of ASCII is written as `xn--`, its ASCII characters, a
hyphen, and the places of the others as numerals of variable length. The other characters are inserted in
ascending order; a numeral counts the places passed over since the insertion before. `Punycode.encode`
writes a label so, `Punycode.decode?` reads it.
-/

namespace Credential.Punycode

/-- The digits: letters stand for 0 to 25, decimal digits for 26 to 35. -/
def digit (n : Nat) : Char := if n < 26 then Char.ofNat (97 + n) else Char.ofNat (22 + n)

/-- Divides a mean distance until one more digit covers it; `k` counts the digits by 36. -/
def reduce : Nat → Nat → Nat → Nat
  | 0, _, k => k
  | fuel + 1, delta, k =>
    if 455 < delta then reduce fuel (delta / 35) (k + 36) else k + 36 * delta / (delta + 38)

/-- The bias for the next numeral, after one that stood for `delta`. -/
def adapt (delta count : Nat) (isFirst : Bool) : Nat :=
  let delta := if isFirst then delta / 700 else delta / 2
  reduce 32 (delta + delta / count) 0

/-- The threshold of the digit at position `k`. -/
def threshold (k bias : Nat) : Nat := if k ≤ bias then 1 else if bias + 26 ≤ k then 26 else k - bias

/-- A number as a numeral of variable length. -/
def numeral (bias : Nat) : Nat → Nat → Nat → List Char
  | 0, _, _ => []
  | fuel + 1, q, k =>
    let t := threshold k bias
    if q < t then [digit q]
    else digit (t + (q - t) % (36 - t)) :: numeral bias fuel ((q - t) / (36 - t)) (k + 36)

/-- The state of writing: the places passed over, the bias, the number of characters written. -/
structure Progress where
  delta : Nat
  bias : Nat
  written : Nat
  output : List Char

/-- Goes over the label and writes the occurrences of one character. -/
def insert (label : List Char) (c : Char) (basic : Nat) (p : Progress) : Progress :=
  label.foldl (fun p d =>
    if d < c then { p with delta := p.delta + 1 }
    else if d = c then
      { delta := 0
        bias := adapt p.delta (p.written + 1) (p.written = basic)
        written := p.written + 1
        output := p.output ++ numeral p.bias 32 p.delta 36 }
    else p) p

/-- Goes over the characters outside of ASCII in ascending order. -/
def insertAll (label : List Char) (basic : Nat) : List Char → Nat → Progress → Progress
  | [], _, p => p
  | c :: rest, last, p =>
    let p := { p with delta := p.delta + (c.toNat - last) * (p.written + 1) }
    let p := insert label c basic p
    insertAll label basic rest (c.toNat + 1) { p with delta := p.delta + 1 }

/-- A label in ASCII, without the mark in front. -/
def encode (label : List Char) : List Char :=
  let basic := label.filter (·.toNat < 128)
  let others := ((label.filter (128 ≤ ·.toNat)).mergeSort (fun a b => a ≤ b)).eraseDups
  let start : Progress :=
    ⟨0, 72, basic.length, if basic.isEmpty then [] else basic ++ ['-']⟩
  (insertAll label basic.length others 128 start).output

/-! ## Reading -/

/-- The value of a digit. -/
def digitValue? (c : Char) : Option Nat :=
  if 'a' ≤ c && c ≤ 'z' then some (c.toNat - 97)
  else if 'A' ≤ c && c ≤ 'Z' then some (c.toNat - 65)
  else if c.isDigit then some (c.toNat - 22)
  else none

/-- The number of a numeral at the start of some characters, and the rest. -/
def readNumeral? (bias : Nat) : Nat → Nat → Nat → List Char → Option (Nat × List Char)
  | weight, k, value, c :: rest => do
    let d ← digitValue? c
    let t := threshold k bias
    let value := value + d * weight
    if d < t then pure (value, rest) else readNumeral? bias (weight * (36 - t)) (k + 36) value rest
  | _, _, _, [] => none

/-- Inserts the characters that numerals stand for into a label. `place` and `code` are the place and the
character that a numeral of zero stands for; a label in ASCII is one without insertions yet. -/
def readInsertions? : Nat → Nat → Nat → Nat → List Char → List Char → Option (List Char)
  | _, _, _, _, label, [] => some label
  | 0, _, _, _, _, _ => none
  | fuel + 1, place, code, bias, label, cs => do
    let (delta, rest) ← readNumeral? bias 1 36 0 cs
    let count := label.length + 1
    let code := code + (place + delta) / count
    let place := (place + delta) % count
    -- no character has this code
    if Char.ofNat code = Char.ofNat 0 then none
    else
      let bias := adapt delta count (label.all (·.toNat < 128))
      let label := label.take place ++ Char.ofNat code :: label.drop place
      readInsertions? fuel (place + 1) code bias label rest

/-- The label that is written in ASCII, without the mark in front. -/
def decode? (cs : List Char) : Option (List Char) :=
  -- the last hyphen parts the ASCII characters from the numerals
  let tail := (cs.reverse.takeWhile (· ≠ '-')).reverse
  let basic := (cs.take (cs.length - tail.length)).dropLast
  readInsertions? (tail.length + 1) 0 128 72 basic tail

end Credential.Punycode
