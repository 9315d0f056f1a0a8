import Credential.Json.Basic
/-!
# Credential.Json.Printer — JSON text

`Json.compact` writes no blanks at all; `Json.pretty` puts every member and item on a line of
its own, indented by two blanks per level.
-/

namespace Credential.Json

/-! ## Strings -/

/-- A hexadecimal digit, in lower case. -/
def hexDigit (n : Nat) : Char :=
  if n < 10 then Char.ofNat (48 + n) else Char.ofNat (87 + n)

/-- A character inside a string: quote, backslash and control characters are escaped, all else
stands for itself. -/
def escapeChar (c : Char) : List Char :=
  if c = '"' then ['\\', '"']
  else if c = '\\' then ['\\', '\\']
  else if c = '\n' then ['\\', 'n']
  else if c = '\r' then ['\\', 'r']
  else if c = '\t' then ['\\', 't']
  else if c = Char.ofNat 8 then ['\\', 'b']
  else if c = Char.ofNat 12 then ['\\', 'f']
  else if c.toNat < 32 then ['\\', 'u', '0', '0', hexDigit (c.toNat / 16), hexDigit (c.toNat % 16)]
  else [c]

/-- A string in quotes. -/
def quote (s : String) : String :=
  "\"" ++ String.ofList (s.toList.flatMap escapeChar) ++ "\""

/-! ## Documents -/

mutual

/-- The document without blanks. -/
def compact : Json → String
  | .null => "null"
  | .bool true => "true"
  | .bool false => "false"
  | .number n => n.text
  | .string s => quote s
  | .array xs => "[" ++ ",".intercalate (compactItems xs) ++ "]"
  | .object ms => "\x7b" ++ ",".intercalate (compactMembers ms) ++ "\x7d"
termination_by structural j => j

/-- The texts of the items of an array. -/
def compactItems : List Json → List String
  | [] => []
  | x :: xs => compact x :: compactItems xs
termination_by structural xs => xs

/-- The texts of the members of an object. -/
def compactMembers : List (String × Json) → List String
  | [] => []
  | (k, v) :: ms => (quote k ++ ":" ++ compact v) :: compactMembers ms
termination_by structural ms => ms

end

/-- A line break followed by two blanks per level. -/
def newline (level : Nat) : String := "\n" ++ String.ofList (List.replicate (2 * level) ' ')

/-- Parts between brackets, each on its own line one level in; empty brackets stay closed. -/
def block (opening closing : String) (level : Nat) (parts : List String) : String :=
  if parts.isEmpty then opening ++ closing
  else
    opening ++ newline (level + 1) ++ ("," ++ newline (level + 1)).intercalate parts
      ++ newline level ++ closing

mutual

/-- The document at an indentation level. -/
def prettyAt : Json → Nat → String
  | .array xs, level => block "[" "]" level (prettyItems xs (level + 1))
  | .object ms, level => block "\x7b" "\x7d" level (prettyMembers ms (level + 1))
  | .null, _ => "null"
  | .bool true, _ => "true"
  | .bool false, _ => "false"
  | .number n, _ => n.text
  | .string s, _ => quote s
termination_by structural j => j

/-- The texts of the items of an array at a level. -/
def prettyItems : List Json → Nat → List String
  | [], _ => []
  | x :: xs, level => prettyAt x level :: prettyItems xs level
termination_by structural xs => xs

/-- The texts of the members of an object at a level. -/
def prettyMembers : List (String × Json) → Nat → List String
  | [], _ => []
  | (k, v) :: ms, level => (quote k ++ ": " ++ prettyAt v level) :: prettyMembers ms level
termination_by structural ms => ms

end

/-- The document with one member or item a line. -/
def pretty (j : Json) : String := prettyAt j 0

end Credential.Json
