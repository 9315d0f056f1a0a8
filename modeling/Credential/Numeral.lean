/-!
# Credential.Numeral — digits and the numbers they write

A digit of a base up to sixteen is a decimal digit or, above nine, a letter in either case.
`Numeral.value?` reads digits with the most significant one first; no digits at all write zero.
-/

namespace Credential.Numeral

/-- The value of a digit of a base. -/
def digit? (base : Nat) (c : Char) : Option Nat :=
  let value? :=
    if c.isDigit then some (c.toNat - 48)
    else if 'a' ≤ c && c ≤ 'f' then some (c.toNat - 87)
    else if 'A' ≤ c && c ≤ 'F' then some (c.toNat - 55)
    else none
  value?.filter (· < base)

/-- The number that digits of a base write, if all are digits. -/
def value? (base : Nat) (cs : List Char) : Option Nat :=
  cs.foldlM (fun n c => (digit? base c).map (base * n + ·)) 0

/-- The value of a decimal digit. -/
def decimalDigit (c : Char) : Nat := c.toNat - 48

/-- The number that decimal digits write. -/
def decimal (cs : List Char) : Nat := cs.foldl (fun n c => 10 * n + decimalDigit c) 0

end Credential.Numeral
