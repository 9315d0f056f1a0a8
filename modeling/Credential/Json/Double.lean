/-!
# Credential.Json.Double — binary floating-point numbers and their shortest decimal text

A double is kept as its 64-bit pattern, so two doubles are equal exactly when they are written
alike, and every operation is exact arithmetic on natural numbers followed by one rounding
(`ofRatio`, to nearest, ties to even).

The text of a double is the shortest decimal that reads back to it: `Double.digits` finds it,
`Double.text` lays it out.
-/

namespace Credential

/-- A binary64 number, by its bit pattern. -/
structure Double where
  /-- Sign bit, eleven exponent bits, fifty-two fraction bits. -/
  bits : UInt64
  deriving DecidableEq, Inhabited

namespace Double

/-! ## Reading the bit pattern -/

/-- The sign bit; set for negative numbers and for negative zero. -/
def isNegative (d : Double) : Bool := Nat.pow 2 63 ≤ d.bits.toNat

/-- The biased exponent. -/
def exponentField (d : Double) : Nat := d.bits.toNat / Nat.pow 2 52 % Nat.pow 2 11

/-- The stored part of the significand. -/
def fractionField (d : Double) : Nat := d.bits.toNat % Nat.pow 2 52

/-- Neither an infinity nor a NaN. -/
def isFinite (d : Double) : Bool := d.exponentField != 2047

/-- The significand, with the leading bit that normal numbers leave out. -/
def significand (d : Double) : Nat :=
  if d.exponentField = 0 then d.fractionField else Nat.pow 2 52 + d.fractionField

/-- The binary exponent `q`: a finite double is `± significand · 2^q`. -/
def scale (d : Double) : Int :=
  if d.exponentField = 0 then -1074 else (d.exponentField : Int) - 1075

/-- Positive or negative zero. -/
def isZero (d : Double) : Bool := d.significand = 0

/-- Numerator of the magnitude of a finite double. -/
def numerator (d : Double) : Nat :=
  if 0 ≤ d.scale then d.significand * Nat.pow 2 d.scale.toNat else d.significand

/-- Denominator of the magnitude of a finite double; a power of two. -/
def denominator (d : Double) : Nat :=
  if 0 ≤ d.scale then 1 else Nat.pow 2 (-d.scale).toNat

/-- A finite double without fractional part. -/
def isIntegral (d : Double) : Bool :=
  d.isFinite && d.numerator % d.denominator = 0

/-- The signed numerator over `denominator`. -/
def signedNumerator (d : Double) : Int :=
  if d.isNegative then -(d.numerator : Int) else d.numerator

/-! ## Rounding -/

/-- The quotient rounded to the nearest integer, ties to even. -/
def roundDiv (num den : Nat) : Nat :=
  let q := num / den
  let twice := 2 * (num % den)
  if twice < den then q
  else if den < twice then q + 1
  else if q % 2 = 0 then q else q + 1

/-- `num / (den · 2^q)` rounded to the nearest integer. -/
def roundScaled (num den : Nat) (q : Int) : Nat :=
  if 0 ≤ q then roundDiv num (den * Nat.pow 2 q.toNat)
  else roundDiv (num * Nat.pow 2 (-q).toNat) den

/-- `num / (den · 2^q)` rounded down. -/
def floorScaled (num den : Nat) (q : Int) : Nat :=
  if 0 ≤ q then num / (den * Nat.pow 2 q.toNat) else num * Nat.pow 2 (-q).toNat / den

/-- The pattern of the infinity of a sign. -/
def infinity (negative : Bool) : Double :=
  ⟨.ofNat ((if negative then Nat.pow 2 63 else 0) + 2047 * Nat.pow 2 52)⟩

/-- The double nearest to `± num / den`, ties to even; an infinity beyond the largest double. -/
def ofRatio (negative : Bool) (num den : Nat) : Double :=
  let sign := if negative then Nat.pow 2 63 else 0
  if num = 0 || den = 0 then ⟨.ofNat sign⟩
  else
    -- the bits of a quotient are known up to one from those of its parts
    let guess := max ((num.log2 : Int) - den.log2 - 53) (-1074)
    let q := if floorScaled num den guess < Nat.pow 2 53 then guess else guess + 1
    let m := roundScaled num den q
    -- the leading bit of a normal number is not stored
    let magnitude :=
      if m < Nat.pow 2 52 then m
      else (q + 1075).toNat * Nat.pow 2 52 + (m - Nat.pow 2 52)
    if 2047 * Nat.pow 2 52 ≤ magnitude then infinity negative else ⟨.ofNat (sign + magnitude)⟩

/-- The double nearest to an integer. -/
def ofInt (i : Int) : Double := ofRatio (i < 0) i.natAbs 1

/-- The product, rounded once. -/
def mul (a b : Double) : Double :=
  ofRatio (a.isNegative != b.isNegative) (a.numerator * b.numerator)
    (a.denominator * b.denominator)

/-- The quotient by a nonzero double, rounded once. -/
def div (a b : Double) : Double :=
  ofRatio (a.isNegative != b.isNegative) (a.numerator * b.denominator)
    (a.denominator * b.numerator)

/-- The double with the sign turned. -/
def neg (d : Double) : Double :=
  ⟨.ofNat ((d.bits.toNat + Nat.pow 2 63) % Nat.pow 2 64)⟩

/-! ## Shortest decimal -/

/-- The largest exponent `k` with `10^k ≤ num / den`, at most the given number of steps above a
known lower bound. -/
def leadingExponent (num den : Nat) : Nat → Int → Int
  | 0, low => low
  | steps + 1, low =>
    let next := low + 1
    let reached :=
      if 0 ≤ next then den * Nat.pow 10 next.toNat ≤ num else den ≤ num * Nat.pow 10 (-next).toNat
    if reached then leadingExponent num den steps next else low

/-- A decimal `digits · 10^exponent` as a ratio. -/
def decimalRatio (digits : Nat) (exponent : Int) : Nat × Nat :=
  if 0 ≤ exponent then (digits * Nat.pow 10 exponent.toNat, 1)
  else (digits, Nat.pow 10 (-exponent).toNat)

/-- The neighbour of `num / den` on the grid of spacing `10^exponent` that lies in the interval
`[low, high] / (4 · den)` around it, the nearer one if both do, the even one on a tie. -/
def gridPoint? (num den low high : Nat) (closed : Bool) (exponent : Int) : Option Nat :=
  let (unit, parts) := decimalRatio 1 exponent
  -- `num / den` counted in grid steps is `num · parts / (den · unit)`
  let steps := num * parts / (den * unit)
  let inside (n : Nat) : Bool :=
    let point := 4 * n * unit * den
    if closed then low * parts ≤ point && point ≤ high * parts
    else low * parts < point && point < high * parts
  let below := inside steps
  let above := inside (steps + 1)
  let twice := 2 * (num * parts - steps * (den * unit))
  match below, above with
  | true, true =>
    if twice < den * unit then some steps
    else if den * unit < twice then some (steps + 1)
    else if steps % 2 = 0 then some steps else some (steps + 1)
  | true, false => some steps
  | false, true => some (steps + 1)
  | false, false => none

/-- The first grid, from one digit to seventeen, that holds a decimal reading back. -/
def firstGrid (num den low high : Nat) (closed : Bool) (top : Int) :
    Nat → Nat → Nat × Int
  | 0, _ => (num / den, 0)
  | left + 1, count =>
    let exponent := top - count
    match gridPoint? num den low high closed exponent with
    | some n => (n, exponent)
    | none => firstGrid num den low high closed top left (count + 1)

/-- Drops the trailing zeros of a decimal, raising its exponent. -/
def stripZeros : Nat → Nat → Int → Nat × Int
  | 0, n, e => (n, e)
  | fuel + 1, n, e => if n ≠ 0 ∧ n % 10 = 0 then stripZeros fuel (n / 10) (e + 1) else (n, e)

/-- The shortest decimal `(n, e)`, standing for `n · 10^e`, that reads back to a finite nonzero
magnitude; of several of that length the nearest. The search for the leading exponent starts
from `1233 / 4096`, just below the decimal logarithm of two. -/
def digits (d : Double) : Nat × Int :=
  let num := d.numerator
  let den := d.denominator
  -- Half the gap to either neighbour, in quarter units of the last place of the significand.
  let wide := d.fractionField = 0 && 1 < d.exponentField
  let unit := if 0 ≤ d.scale then Nat.pow 2 d.scale.toNat else 1
  let low := 4 * num - (if wide then 1 else 2) * unit
  let high := 4 * num + 2 * unit
  let closed := d.significand % 2 = 0
  let top := leadingExponent num den 4 (((num.log2 : Int) - den.log2 - 1) * 1233 / 4096 - 1)
  let (n, e) := firstGrid num den low high closed top 17 0
  stripZeros 20 n e

/-- The text of a finite double without exponent and, if it is integral, without fraction. -/
def plainText (d : Double) : String :=
  let sign := if d.isNegative then "-" else ""
  if d.isZero then sign ++ "0"
  else
    let (n, e) := d.digits
    let ds := (Nat.repr n).toList
    let point := e + ds.length
    if 0 ≤ e then sign ++ String.ofList (ds ++ List.replicate e.toNat '0')
    else if 0 < point then
      sign ++ String.ofList (ds.take point.toNat) ++ "." ++ String.ofList (ds.drop point.toNat)
    else sign ++ "0." ++ String.ofList (List.replicate (-point).toNat '0' ++ ds)

/-- The text of a finite double: positional when the decimal point falls less than five places
before the first digit and at most sixteen after it, always with a fraction; else with an
exponent that carries its sign. -/
def text (d : Double) : String :=
  let sign := if d.isNegative then "-" else ""
  if d.isZero then sign ++ "0.0"
  else
    let (n, e) := d.digits
    let ds := (Nat.repr n).toList
    let count := ds.length
    let point := e + count
    if 0 < point && point ≤ 16 then
      let k := point.toNat
      if count ≤ k then
        sign ++ String.ofList (ds ++ List.replicate (k - count) '0') ++ ".0"
      else sign ++ String.ofList (ds.take k) ++ "." ++ String.ofList (ds.drop k)
    else if -5 < point && point ≤ 0 then
      sign ++ "0." ++ String.ofList (List.replicate (-point).toNat '0' ++ ds)
    else
      let mantissa :=
        String.ofList (ds.take 1) ++
          (if count = 1 then "" else "." ++ String.ofList (ds.drop 1))
      let x := point - 1
      sign ++ mantissa ++ "e" ++ (if x < 0 then "-" else "+") ++ Nat.repr x.natAbs

end Double

end Credential
