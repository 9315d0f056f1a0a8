import Credential.Numeral
import Credential.Text
/-!
# Credential.Ip — addresses of the Internet Protocol

An address of version 4 is written as four decimal numbers, one of version 6 as eight groups of four
hexadecimal digits; a double colon stands for groups of zeros, and the last two groups may be written
as an address of version 4. The shortest way of writing drops leading zeros and puts the double colon
in place of the first of the longest runs of zero groups.
-/

namespace Credential.Ip

/-! ## Version 4 -/

/-- A number from 0 to 255 without leading zero. -/
def octet? (cs : List Char) : Option Nat :=
  match cs with
  | [] => none
  | ['0'] => some 0
  | '0' :: _ => none
  | _ => if cs.length ≤ 3 then (Numeral.value? 10 cs).filter (· ≤ 255) else none

/-- The number of an address of version 4. -/
def parse4? (cs : List Char) : Option Nat := do
  match ← (Text.splitAt '.' cs).mapM octet? with
  | [a, b, c, d] => pure (((a * 256 + b) * 256 + c) * 256 + d)
  | _ => none

/-- The text of an address of version 4. -/
def text4 (n : Nat) : String :=
  let bytes := [n / Nat.pow 2 24, n / Nat.pow 2 16 % 256, n / Nat.pow 2 8 % 256, n % 256]
  ".".intercalate (bytes.map Nat.repr)

/-! ## Version 6 -/

/-- A group of one to four hexadecimal digits. -/
def group? (cs : List Char) : Option Nat :=
  if cs.isEmpty || 4 < cs.length then none
  else Numeral.value? 16 cs

/-- Groups of which the last two may be written as an address of version 4. -/
def groups? : List (List Char) → Option (List Nat)
  | [] => some []
  | [last] =>
    match parse4? last with
    | some n => some [n / Nat.pow 2 16, n % Nat.pow 2 16]
    | none => (group? last).map fun g => [g]
  | first :: rest => do pure ((← group? first) :: (← groups? rest))

/-- The characters before and after the first double colon. -/
def splitDoubleColon? : List Char → Option (List Char × List Char)
  | ':' :: ':' :: rest => some ([], rest)
  | c :: rest => (splitDoubleColon? rest).map fun (before, rest) => (c :: before, rest)
  | [] => none

/-- The eight groups of an address of version 6. -/
def parse6? (cs : List Char) : Option (List Nat) :=
  let parts (cs : List Char) : List (List Char) := if cs.isEmpty then [] else Text.splitAt ':' cs
  match splitDoubleColon? cs with
  | none => (groups? (parts cs)).filter (·.length = 8)
  | some (before, rest) => do
    let high ← (parts before).mapM group?
    let low ← groups? (parts rest)
    if high.length + low.length ≤ 7 then
      pure (high ++ List.replicate (8 - high.length - low.length) 0 ++ low)
    else none

/-- The number of zeros at the start of some groups. -/
def zeros (groups : List Nat) : Nat := (groups.takeWhile (· = 0)).length

/-- Where the first of the longest runs of two zeros or more starts, and how long it is. -/
def longestRun (groups : List Nat) : Nat × Nat :=
  (List.range groups.length).foldl (fun best i =>
    let length := zeros (groups.drop i)
    if max 1 best.2 < length then (i, length) else best) (0, 0)

/-- A group without leading zeros. -/
def groupText (n : Nat) : String := String.ofList (Nat.toDigits 16 n)

/-- The text of an address of version 6. -/
def text6 (groups : List Nat) : String :=
  let join (groups : List Nat) : String := ":".intercalate (groups.map groupText)
  match longestRun groups with
  | (_, 0) => join groups
  | (start, length) => join (groups.take start) ++ "::" ++ join (groups.drop (start + length))

end Credential.Ip
