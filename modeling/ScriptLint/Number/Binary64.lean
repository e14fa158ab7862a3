import ScriptLint.Number.Decimal
/-!
# Binary floating-point numbers

The values of number literals: NaN, the two infinities, and numbers
`± mantissa * 2 ^ exponent` with 53 bits of mantissa and exponents from -1074
on. A value is kept in the one form that has the largest mantissa, or the
least exponent for the numbers near zero, so equal values of one sign are
equal terms. Zero has a sign.

A decimal is rounded to the nearest value, and half way between two values
to the one with the even mantissa. All arithmetic is exact, on naturals.

Key definitions: `Binary64`, `Binary64.ofDecimal`, `Binary64.parse?`, `Binary64.negate`.
-/

namespace ScriptLint

/-- A binary floating-point value of 64 bits. -/
inductive Binary64 where
  | nan
  | infinite (negative : Bool)
  | finite (negative : Bool) (mantissa : Nat) (exponent : Int)
  deriving DecidableEq, Repr

namespace Binary64

/-- Mantissas are below this bound, the 53rd power of two. -/
def mantissaBound : Nat := 0x20000000000000

/-- The exponent of the numbers nearest to zero. -/
def leastExponent : Int := -1074

/-- The exponent of the largest numbers. -/
def greatestExponent : Int := 971

/-- Zero without a sign. -/
def zero : Binary64 :=
  .finite false 0 leastExponent

/-- The same value with the other sign. -/
def negate : Binary64 → Binary64
  | .nan => .nan
  | .infinite negative => .infinite (!negative)
  | .finite negative mantissa exponent => .finite (!negative) mantissa exponent

/-- The quotient rounded to the nearest integer, a half to the even one. -/
def roundDiv (num den : Nat) : Nat :=
  let quotient := num / den
  let twice := 2 * (num % den)
  if twice < den then quotient
  else if den < twice then quotient + 1
  else if quotient % 2 = 0 then quotient else quotient + 1

/-- The fraction `num / den / 2 ^ exponent`, as a numerator and a denominator. -/
def scaleDown (num den : Nat) (exponent : Int) : Nat × Nat :=
  (num * powDen 2 exponent, den * powNum 2 exponent)

/-- The exponent of the value nearest to `num / den`: the least one that
leaves no more than 53 bits before the point. -/
def exponentOf (num den : Nat) : Int :=
  let guess : Int := max leastExponent ((Nat.log2 num : Int) - Nat.log2 den - 53)
  let (scaledNum, scaledDen) := scaleDown num den guess
  if scaledNum / scaledDen < mantissaBound then guess else guess + 1

/-- The value nearest to a fraction that is not negative. -/
def ofFraction (num den : Nat) : Binary64 :=
  if num = 0 then zero
  else
    let exponent := exponentOf num den
    let (scaledNum, scaledDen) := scaleDown num den exponent
    let mantissa := roundDiv scaledNum scaledDen
    let (mantissa, exponent) :=
      if mantissa = mantissaBound then (mantissaBound / 2, exponent + 1) else (mantissa, exponent)
    if greatestExponent < exponent then .infinite false else .finite false mantissa exponent

/-- The value nearest to a decimal. Decimals beyond 10 ^ 310 are infinite, and those
below 10 ^ -330 are zero, whatever their digits are. -/
def ofDecimal (d : Decimal) : Binary64 :=
  let size : Int := Decimal.digitCount d.coefficient + d.exponent
  if d.coefficient = 0 ∨ size < -330 then zero
  else if 310 < size then .infinite false
  else ofFraction (d.coefficient * powNum 10 d.exponent) (powDen 10 d.exponent)

/-- The exponent part of a numeral: nothing, or the mark `e` with an integer. -/
def parseExponent? : List Char → Option Int
  | [] => some 0
  | mark :: rest =>
    if mark = 'e' ∨ mark = 'E' then
      let (negative, digits) :=
        match rest with
        | '-' :: digits => (true, digits)
        | '+' :: digits => (false, digits)
        | digits => (false, digits)
      if digits ≠ [] ∧ digits.all Char.isDigit then
        let value : Int := Decimal.natOfDigits digits
        some (if negative then -value else value)
      else none
    else none

/-- A numeral without a sign: digits with at most one point and at least one
digit, then perhaps an exponent; or the name of an infinity or of NaN. -/
def parseUnsigned? (cs : List Char) : Option Binary64 :=
  let lower := cs.map Char.toLower
  if lower = "inf".toList ∨ lower = "infinity".toList then some (.infinite false)
  else if lower = "nan".toList then some .nan
  else
    let whole := cs.takeWhile Char.isDigit
    let rest := cs.dropWhile Char.isDigit
    let (fraction, rest) :=
      match rest with
      | '.' :: rest => (rest.takeWhile Char.isDigit, rest.dropWhile Char.isDigit)
      | rest => ([], rest)
    if whole = [] ∧ fraction = [] then none
    else (parseExponent? rest).map fun exponent =>
      ofDecimal (Decimal.ofDigits whole fraction exponent)

/-- The value nearest to the number that a numeral spells. -/
def parse? : List Char → Option Binary64
  | '-' :: rest => (parseUnsigned? rest).map negate
  | '+' :: rest => parseUnsigned? rest
  | rest => parseUnsigned? rest

end Binary64

end ScriptLint
