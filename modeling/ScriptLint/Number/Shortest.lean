import ScriptLint.Number.Binary64
/-!
# Shortest text of a number

A value is written with the fewest digits that read back as the value. Each
number of digits gives a grid of decimals; the value lies between two of its
points, and the first grid on which one of these two rounds to the value is
taken. Of two such points the nearer one is written, and the upper one when
both are as near.

A decimal rounds to `mantissa * 2 ^ exponent` when it lies in the value's
interval: half a step away at most, where the step below a power of two is
half as long, and the ends belong to it when the mantissa is even.

Key definitions: `Binary64.Interval`, `Binary64.shortest`, `Binary64.render`.
-/

namespace ScriptLint.Binary64

/-- The decimals that round to a value, in quarters of its unit in the last
place: the value is `center`, in the scale `2 ^ scale`. -/
structure Interval where
  low : Nat
  center : Nat
  high : Nat
  closed : Bool
  scale : Int
  deriving DecidableEq, Repr

/-- The interval of a finite value that is not zero. -/
def interval (mantissa : Nat) (exponent : Int) : Interval where
  low := if mantissa = mantissaBound / 2 ∧ leastExponent < exponent
    then 4 * mantissa - 1 else 4 * mantissa - 2
  center := 4 * mantissa
  high := 4 * mantissa + 2
  closed := mantissa % 2 == 0
  scale := exponent - 2

/-- The integers `d.coefficient` and `quarters` on a common scale, so that they
compare as the decimal `d` and `quarters * 2 ^ scale` do. -/
def onCommonScale (d : Decimal) (quarters : Nat) (scale : Int) : Nat × Nat :=
  (d.coefficient * powNum 10 d.exponent * powDen 2 scale,
    quarters * powNum 2 scale * powDen 10 d.exponent)

/-- The decimal rounds to the value of the interval. -/
def Interval.holds (i : Interval) (d : Decimal) : Bool :=
  let (fromLow, low) := onCommonScale d i.low i.scale
  let (fromHigh, high) := onCommonScale d i.high i.scale
  if i.closed then low ≤ fromLow && fromHigh ≤ high else low < fromLow && fromHigh < high

/-- The number of places before the point: the least `p` with the value below `10 ^ p`. -/
def Interval.places (i : Interval) : Int :=
  let num := i.center * powNum 2 i.scale
  let den := powDen 2 i.scale
  if den ≤ num then Decimal.digitCount (num / den)
  else 1 - (Decimal.digitCount ((den - 1) / num) : Int)

/-- The last point of the grid `10 ^ exponent` that is not above the value. -/
def Interval.gridPoint (i : Interval) (exponent : Int) : Decimal :=
  let num := i.center * powNum 2 i.scale * powDen 10 exponent
  let den := powDen 2 i.scale * powNum 10 exponent
  ⟨num / den, exponent⟩

/-- The value is nearer to the lower point than to the one above it. -/
def Interval.nearerBelow (i : Interval) (lower : Decimal) : Bool :=
  let (below, center) := onCommonScale lower i.center i.scale
  let (above, _) := onCommonScale ⟨lower.coefficient + 1, lower.exponent⟩ i.center i.scale
  center - below < above - center

/-- The decimal on the grid of `digits` digits that is written, if one of the
two next to the value rounds to it. -/
def Interval.onGrid? (i : Interval) (digits : Nat) : Option Decimal :=
  let lower := i.gridPoint (i.places - digits)
  let upper : Decimal := ⟨lower.coefficient + 1, lower.exponent⟩
  match i.holds lower, i.holds upper with
  | true, true => some (if i.nearerBelow lower then lower else upper)
  | true, false => some lower
  | false, true => some upper
  | false, false => none

/-- The shortest decimal that rounds to the value. Seventeen digits always suffice. -/
def shortest (mantissa : Nat) (exponent : Int) : Decimal :=
  let i := interval mantissa exponent
  let grids := (List.range 17).map (· + 1)
  ((grids.findSome? i.onGrid?).getD (i.gridPoint (i.places - 17))).normalize

/-- The text of a value. No exponent and no empty fraction is ever written. -/
def render : Binary64 → String
  | .nan => "NaN"
  | .infinite negative => if negative then "-inf" else "inf"
  | .finite negative mantissa exponent =>
    let magnitude := if mantissa = 0 then "0" else (shortest mantissa exponent).positional
    if negative then "-" ++ magnitude else magnitude

end ScriptLint.Binary64
