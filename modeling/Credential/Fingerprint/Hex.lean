import Credential.Quotation
/-!
# Credential.Fingerprint.Hex — bytes as hexadecimal text

Two digits a byte, written in lower case and read in either. A text that is no such writing is refused
for an odd number of bytes first, else for its first byte that is no digit.
-/

namespace Credential.Hex

/-- Why a text is no hexadecimal writing. -/
inductive Flaw where
  | oddLength
  | badDigit (byte : UInt8) (index : Nat)
  deriving DecidableEq

/-- A byte between quotes, as the character of its number. -/
def quoteByte (byte : UInt8) : String :=
  Quotation.between '\'' (String.singleton (Char.ofNat byte.toNat))

/-- The wording of a flaw. -/
def Flaw.message : Flaw → String
  | .oddLength => "Odd number of digits"
  | .badDigit byte index =>
    "Invalid character " ++ quoteByte byte ++ " at position " ++ Nat.repr index

/-- The character of a digit below sixteen. -/
def digit (n : Nat) : Char := if n < 10 then Char.ofNat (48 + n) else Char.ofNat (87 + n)

/-- The value of a digit, given as a byte. -/
def value? (byte : UInt8) : Option Nat :=
  let n := byte.toNat
  if 48 ≤ n ∧ n ≤ 57 then some (n - 48)
  else if 97 ≤ n ∧ n ≤ 102 then some (n - 87)
  else if 65 ≤ n ∧ n ≤ 70 then some (n - 55)
  else none

/-- The digits of some bytes. -/
def encodeChars (bytes : List UInt8) : List Char :=
  bytes.flatMap fun b => [digit (b.toNat / 16), digit (b.toNat % 16)]

/-- The writing of some bytes. -/
def encode (bytes : List UInt8) : String := String.ofList (encodeChars bytes)

/-- Pairs of digits from some index on. -/
def decodeFrom : Nat → List UInt8 → Except Flaw (List UInt8)
  | _, [] => .ok []
  | _, [_] => .error .oddLength
  | index, high :: low :: rest =>
    match value? high, value? low with
    | some h, some l => (decodeFrom (index + 2) rest).map (.ofNat (16 * h + l) :: ·)
    | none, _ => .error (.badDigit high index)
    | _, none => .error (.badDigit low (index + 1))

/-- The bytes of a writing, given by its own bytes. -/
def decodeBytes (bytes : List UInt8) : Except Flaw (List UInt8) :=
  if bytes.length % 2 = 1 then .error .oddLength else decodeFrom 0 bytes

/-- The bytes of a writing. -/
def decode (text : String) : Except Flaw (List UInt8) := decodeBytes text.toUTF8.toList

end Credential.Hex
