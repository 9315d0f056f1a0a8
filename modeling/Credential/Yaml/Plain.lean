import Credential.Json.Basic
import Credential.Numeral
import Credential.Quotation
/-!
# Credential.Yaml.Plain — what a scalar without quotes means

A scalar without quotes is null, a truth value, a number or a text, by how it is written. Integers have
the bases ten, two, eight and sixteen; one too large for 64 bits is an error as long as it fits 128, and
no integer beyond that. Digits after a leading zero are a text. What is no finite number is null.

A tag of the standard asks for one of these kinds, and a scalar that is not written as one is an error.
-/

namespace Credential.Yaml

/-- Why a scalar has no value. -/
inductive Mismatch where
  /-- Tagged as something it is not written as. -/
  | unlike (text : String) (expected : String)
  /-- An integer of more than 64 bits. -/
  | outOfRange
  deriving DecidableEq

/-- What is wrong, as told. -/
def Mismatch.message : Mismatch → String
  | .unlike text expected =>
    "invalid value: string " ++ Quotation.between '"' text ++ ", expected " ++ expected
  | .outOfRange => "JSON number out of range"

namespace Plain

/-! ## Words -/

/-- Whether a scalar is written as null. -/
def isNull (text : String) : Bool := ["null", "Null", "NULL", "~"].contains text

/-- The truth value that a scalar is written as. -/
def bool? (text : String) : Option Bool :=
  if ["true", "True", "TRUE"].contains text then some true
  else if ["false", "False", "FALSE"].contains text then some false
  else none

/-! ## Integers -/

/-- The number that digits of a base write; there has to be one. -/
def natural? (base : Nat) (cs : List Char) : Option Nat :=
  if cs.isEmpty then none else Numeral.value? base cs

/-- Whether digits follow a leading zero. -/
def isPadded (cs : List Char) : Bool :=
  match cs with
  | '0' :: rest => !rest.isEmpty && rest.all Char.isDigit
  | _ => false

/-- The number that an integer without sign writes. -/
def magnitude? (cs : List Char) : Option Nat :=
  match cs with
  | '0' :: 'x' :: rest => natural? 16 rest
  | '0' :: 'o' :: rest => natural? 8 rest
  | '0' :: 'b' :: rest => natural? 2 rest
  | _ => if isPadded cs then none else natural? 10 cs

/-- The integer that a scalar is written as, of any size. -/
def integer? (text : String) : Option Int :=
  match text.toList with
  | '-' :: rest => (magnitude? rest).map fun n => -(n : Int)
  | '+' :: rest => (magnitude? rest).map fun n => n
  | cs => (magnitude? cs).map fun n => n

/-- Whether an integer fits 64 bits, with a sign if it is negative. -/
def fits (i : Int) : Bool := -Nat.pow 2 63 ≤ i && i < Nat.pow 2 64

/-- Whether an integer fits 128 bits, with a sign if it is negative. -/
def fitsTwice (i : Int) : Bool := -Nat.pow 2 127 ≤ i && i < Nat.pow 2 128

/-- The value that a scalar has as an integer. -/
def integerValue? (text : String) : Option (Except Mismatch Json) :=
  match integer? text with
  | none => none
  | some i =>
    if fits i then some (.ok (.number (.integer i)))
    else if fitsTwice i then some (.error .outOfRange)
    else none

/-! ## Fractions -/

/-- Digits up to something else. -/
def digitRun (cs : List Char) : List Char × List Char := cs.span Char.isDigit

/-- The exponent of a number, nothing after it; zero if none is written. -/
def exponent? (cs : List Char) : Option Int :=
  match cs with
  | [] => some 0
  | e :: rest =>
    if e ≠ 'e' && e ≠ 'E' then none
    else
      match rest with
      | '-' :: ds => (natural? 10 ds).map fun n => -(n : Int)
      | '+' :: ds => (natural? 10 ds).map fun n => n
      | ds => (natural? 10 ds).map fun n => n

/-- The double nearest to `± digits · 10^exponent`. Exponents far out of range are cut off, as they give
zero or an infinity in any case. -/
def nearest (negative : Bool) (digits : List Char) (exponent : Int) : Double :=
  let significand := Numeral.decimal digits
  let reach : Int := digits.length + 400
  let exponent := max (-reach) (min reach exponent)
  let (num, den) := Double.decimalRatio significand exponent
  Double.ofRatio negative num den

/-- The double that a number with a sign, a point and an exponent is nearest to. There has to be a digit
before the exponent. -/
def decimal? (cs : List Char) : Option Double :=
  let (negative, cs) := match cs with
    | '-' :: rest => (true, rest)
    | '+' :: rest => (false, rest)
    | _ => (false, cs)
  let (whole, cs) := digitRun cs
  let (places, cs) := match cs with
    | '.' :: rest => digitRun rest
    | _ => ([], cs)
  if whole.isEmpty && places.isEmpty then none
  else (exponent? cs).map fun e => nearest negative (whole ++ places) (e - places.length)

/-- The value that a scalar has as a number with fraction. Infinities and what is no number are null. -/
def fraction? (text : String) : Option Json :=
  if [".inf", ".Inf", ".INF", "+.inf", "+.Inf", "+.INF", "-.inf", "-.Inf", "-.INF", ".nan", ".NaN",
      ".NAN"].contains text then some .null
  else
    let cs := match text.toList with
      | '+' :: '-' :: _ => []
      | cs => cs
    match decimal? cs with
    | some d => if d.isFinite then some (.number (.double d)) else none
    | none => none

/-! ## Values -/

/-- Whether a scalar has digits after a leading zero, with or without sign. -/
def isPaddedText (text : String) : Bool :=
  match text.toList with
  | '-' :: rest => isPadded rest
  | '+' :: rest => isPadded rest
  | cs => isPadded cs

/-- The value of a scalar without quotes and tag. -/
def value (text : String) : Except Mismatch Json :=
  if text.isEmpty || isNull text then .ok .null
  else
    match bool? text with
    | some b => .ok (.bool b)
    | none =>
      match integerValue? text with
      | some outcome => outcome
      | none =>
        let fraction := if isPaddedText text then none else fraction? text
        .ok (fraction.getD (.string text))

/-- The address that the tags of the standard start with. -/
def standard : String := "tag:yaml.org,2002:"

/-- The value of a scalar with a tag, however it is written. A tag of no known kind leaves it a text. -/
def taggedValue (tag text : String) : Except Mismatch Json :=
  if tag = standard ++ "bool" then
    match bool? text with
    | some b => .ok (.bool b)
    | none => .error (.unlike text "a boolean")
  else if tag = standard ++ "int" then
    (integerValue? text).getD (.error (.unlike text "an integer"))
  else if tag = standard ++ "float" then
    match fraction? text with
    | some value => .ok value
    | none => .error (.unlike text "a float")
  else if tag = standard ++ "null" then
    if isNull text then .ok .null else .error (.unlike text "null")
  else .ok (.string text)

end Plain

end Credential.Yaml
