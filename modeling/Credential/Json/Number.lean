import Credential.Json.Double
/-!
# Credential.Json.Number — the numbers of a JSON document

A number is an integer of at most 64 bits or a double. The two are told apart by how they are
written: `1` is an integer, `1.0` and `1e0` are doubles, and so is an integer too large for 64 bits.
`Number.agrees` is equality of value, `Number.lt` order of value.
-/

namespace Credential

/-- A JSON number. -/
inductive Number where
  /-- An integer from `-2^63` to `2^64 - 1`. -/
  | integer (value : Int)
  /-- A finite double. -/
  | double (value : Double)
  deriving DecidableEq, Inhabited

namespace Number

/-- Without fractional part: `5` and `5.0` alike. -/
def isIntegral : Number → Bool
  | .integer _ => true
  | .double d => d.isIntegral

/-- The double nearest to the number. -/
def toDouble : Number → Double
  | .integer i => .ofInt i
  | .double d => d

/-- The number as written in a document. -/
def text : Number → String
  | .integer i => if i < 0 then "-" ++ Nat.repr i.natAbs else Nat.repr i.natAbs
  | .double d => d.text

/-- Numerator of the exact value. -/
def numerator : Number → Int
  | .integer i => i
  | .double d => d.signedNumerator

/-- Denominator of the exact value. -/
def denominator : Number → Nat
  | .integer _ => 1
  | .double d => d.denominator

/-- Order of the exact values. -/
def lt (a b : Number) : Bool := a.numerator * b.denominator < b.numerator * a.denominator

/-- Equality of value: exact between integers, after rounding to doubles as soon as one side is
a double. Positive and negative zero agree. -/
def agrees (a b : Number) : Bool :=
  match a, b with
  | .integer i, .integer j => i = j
  | _, _ =>
    let x := a.toDouble
    let y := b.toDouble
    x.signedNumerator * y.denominator = y.signedNumerator * x.denominator

/-- The number as a non-negative integer, written as an integer or as an integral double. -/
def toNat? (n : Number) : Option Nat :=
  if n.isIntegral && 0 ≤ n.numerator then some (n.numerator.toNat / n.denominator) else none

end Number

end Credential
