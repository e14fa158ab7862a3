/-!
# Decimals

A decimal is a coefficient with a power of ten. This module has the two
sides of its text: the digits of a numeral are read as a coefficient, and a
decimal is written out place by place, never with an exponent.

Key definitions: `Decimal`, `Decimal.ofDigits`, `Decimal.normalize`, `Decimal.positional`.
-/

namespace ScriptLint

/-- The numerator of the power `base ^ exponent`, as a fraction in lowest terms. -/
def powNum (base : Nat) (exponent : Int) : Nat :=
  Nat.pow base exponent.toNat

/-- The denominator of the power `base ^ exponent`. -/
def powDen (base : Nat) (exponent : Int) : Nat :=
  Nat.pow base (-exponent).toNat

/-- The number `coefficient * 10 ^ exponent`. -/
structure Decimal where
  coefficient : Nat
  exponent : Int
  deriving DecidableEq, Repr

namespace Decimal

/-- The value of one digit. -/
def digitValue (c : Char) : Nat :=
  c.toNat - '0'.toNat

/-- The number that a row of digits spells; the empty row spells zero. -/
def natOfDigits (digits : List Char) : Nat :=
  digits.foldl (fun value c => 10 * value + digitValue c) 0

/-- The digits before the point, those after it, and a power of ten. -/
def ofDigits (whole fraction : List Char) (exponent : Int) : Decimal :=
  ⟨natOfDigits (whole ++ fraction), exponent - fraction.length⟩

/-- The number of digits in which a number is written. -/
def digitCount (n : Nat) : Nat :=
  (Nat.toDigits 10 n).length

/-- The same number without zeros at the end of its coefficient. Zero stays as it is. -/
def normalize (d : Decimal) : Decimal :=
  if h : d.coefficient ≠ 0 ∧ d.coefficient % 10 = 0 then
    normalize ⟨d.coefficient / 10, d.exponent + 1⟩
  else d
termination_by d.coefficient
decreasing_by exact Nat.div_lt_self (Nat.pos_of_ne_zero h.1) (by decide)

/-- All places of the number: zeros fill up to the units, and a point stands
before the first place behind them, with a zero in front if it comes first. -/
def positional (d : Decimal) : String :=
  let digits := Nat.toDigits 10 d.coefficient
  if 0 ≤ d.exponent then
    String.ofList (digits ++ List.replicate d.exponent.toNat '0')
  else
    let places := (-d.exponent).toNat
    if places < digits.length then
      let whole := digits.length - places
      String.ofList (digits.take whole ++ '.' :: digits.drop whole)
    else
      String.ofList ('0' :: '.' :: (List.replicate (places - digits.length) '0' ++ digits))

end Decimal

end ScriptLint
