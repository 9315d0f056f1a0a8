import Credential.Numeral
/-!
# Credential.Percent — bytes written with a percent sign

A byte can be written as a percent sign and two hexadecimal digits. `Percent.encode` writes the UTF-8
bytes of certain characters so, `Percent.bytes` reads them back; a percent sign without two digits
behind it stands for itself.
-/

namespace Credential.Percent

/-- A hexadecimal digit, in upper case. -/
def digit (n : Nat) : Char := if n < 10 then Char.ofNat (48 + n) else Char.ofNat (55 + n)

/-- A byte behind a percent sign. -/
def encodeByte (b : UInt8) : List Char := ['%', digit (b.toNat / 16), digit (b.toNat % 16)]

/-- A character as it is or, if it is to be escaped, by its bytes. Control characters and those outside
of ASCII always are. -/
def encodeChar (escaped : Char → Bool) (c : Char) : List Char :=
  if c.toNat < 32 || 126 < c.toNat || escaped c then (String.utf8EncodeChar c).flatMap encodeByte
  else [c]

/-- Characters, some of which are to be escaped. -/
def encode (escaped : Char → Bool) (cs : List Char) : List Char := cs.flatMap (encodeChar escaped)

/-- The bytes of some characters, with those behind percent signs decoded. -/
def bytes : List Char → List UInt8
  | '%' :: a :: b :: rest =>
    match Numeral.digit? 16 a, Numeral.digit? 16 b with
    | some x, some y => UInt8.ofNat (16 * x + y) :: bytes rest
    | _, _ => 37 :: bytes (a :: b :: rest)
  | c :: rest => String.utf8EncodeChar c ++ bytes rest
  | [] => []

/-- The text with percent signs decoded, if its bytes make up characters. -/
def decode? (cs : List Char) : Option String := String.fromUTF8? ⟨(bytes cs).toArray⟩

end Credential.Percent
