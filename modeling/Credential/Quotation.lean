/-!
# Credential.Quotation — text between quotes

What is told about foreign text puts it between quotes. Inside of them the quote itself and the backslash
have a backslash in front, the line ends, the tab and the zero character are written by letters, and all
other characters that cannot be seen by their number.
-/

namespace Credential.Quotation

/-- The ranges of code points that cannot be seen, or only together with the character before. -/
def hiddenRanges : List (Nat × Nat) :=
  [(0x0, 0x1f), (0x7f, 0xa0), (0xad, 0xad), (0x300, 0x36f), (0x378, 0x379), (0x483, 0x489),
    (0x591, 0x5bd), (0x600, 0x605), (0x610, 0x61a), (0x61c, 0x61c), (0x64b, 0x65f), (0x6dd, 0x6dd),
    (0x70f, 0x70f), (0x1680, 0x1680), (0x180b, 0x180f), (0x1ab0, 0x1ace), (0x1dc0, 0x1dff),
    (0x2000, 0x200f), (0x2028, 0x202f), (0x205f, 0x206f), (0x20d0, 0x20f0), (0x3000, 0x3000),
    (0x302a, 0x302f), (0x3099, 0x309a), (0xd7fc, 0xf8ff), (0xfe00, 0xfe0f), (0xfe20, 0xfe2f),
    (0xfeff, 0xfeff), (0xfff0, 0xfffb), (0xfffe, 0xffff), (0x1d173, 0x1d17a), (0x1fffe, 0x1ffff),
    (0xe0000, 0x10ffff)]

/-- Whether a character cannot be seen. -/
def isHidden (c : Char) : Bool := hiddenRanges.any fun r => r.1 ≤ c.toNat && c.toNat ≤ r.2

/-- A character as written between quotes of a kind. -/
def escape (quote c : Char) : String :=
  if c = quote || c = '\\' then String.ofList ['\\', c]
  else if c = '\n' then "\\n"
  else if c = '\r' then "\\r"
  else if c = '\t' then "\\t"
  else if c = '\x00' then "\\0"
  else if isHidden c then "\\u\x7b" ++ String.ofList (Nat.toDigits 16 c.toNat) ++ "\x7d"
  else String.singleton c

/-- A text between quotes of a kind. -/
def between (quote : Char) (text : String) : String :=
  String.singleton quote ++ String.join (text.toList.map (escape quote)) ++ String.singleton quote

end Credential.Quotation
