import MergeCost.Double

/-!
The shortest decimal that reads back as a given double, in exact arithmetic.

The reals that round to `significand * 2 ^ exponent` form an interval. Grids of decimals are tried
from coarse to fine, and the first grid with a point in the interval gives the digits. On a grid
only the two neighbours of the value can be the nearest point, so only these two are tested.
-/

namespace MergeCost.Decimal

/-- Which of two equally near decimals is taken. -/
inductive Tie where
  | up
  | toEven
deriving Repr, DecidableEq

/-- The number of decimal digits of a count; 0 has none. -/
def width (count : Nat) : Nat := if count = 0 then 0 else (Nat.toDigits 10 count).length

/-- The position of the point of `above / below`: the quotient is less than ten to that power, and
at least a tenth of it. -/
def pointPosition (above below : Nat) : Int :=
  if below ≤ above then width (above / below)
  else 1 - (width ((below + above - 1) / above - 1) : Int)

/-- A binary value in quarters of its last place, with the ends of the interval that rounds to it.
The interval is narrower below a power of two, and closed if the significand is even. -/
structure Interval where
  lower : Nat
  centre : Nat
  upper : Nat
  closed : Bool
  exponent : Int

def Interval.around (significand : Nat) (exponent : Int) : Interval where
  lower := 4 * significand - (if significand = 1 <<< 52 ∧ exponent ≠ -1074 then 1 else 2)
  centre := 4 * significand
  upper := 4 * significand + 2
  closed := significand % 2 = 0
  exponent := exponent - 2

namespace Interval

/-- The factor that turns quarters of the last place into steps of the grid `10 ^ step`, as a
fraction. -/
def factor (interval : Interval) (step : Int) : Nat × Nat :=
  (Nat.pow 2 interval.exponent.toNat * Nat.pow 10 (-step).toNat,
    Nat.pow 2 (-interval.exponent).toNat * Nat.pow 10 step.toNat)

/-- Whether `digits * 10 ^ step` lies in the interval. -/
def contains (interval : Interval) (digits : Nat) (step : Int) : Bool :=
  let (up, down) := interval.factor step
  if interval.closed then
    interval.lower * up ≤ digits * down ∧ digits * down ≤ interval.upper * up
  else
    interval.lower * up < digits * down ∧ digits * down < interval.upper * up

/-- The point of the grid `10 ^ step` that is nearest to the value among its two neighbours that
lie in the interval. -/
def nearest? (interval : Interval) (tie : Tie) (step : Int) : Option Nat :=
  let (up, down) := interval.factor step
  let below := interval.centre * up / down
  match interval.contains below step, interval.contains (below + 1) step with
  | false, false => none
  | true, false => some below
  | false, true => some (below + 1)
  | true, true =>
      let twice := 2 * (interval.centre * up)
      let middle := (2 * below + 1) * down
      if twice < middle then some below
      else if middle < twice then some (below + 1)
      else match tie with
        | .up => some (below + 1)
        | .toEven => some (below + below % 2)

end Interval

/-- Takes zeros off the end, for as long as there are any and as often as allowed. -/
def dropZeros : Nat → Nat → Int → Nat × Int
  | 0, digits, exponent => (digits, exponent)
  | allowed + 1, digits, exponent =>
      if digits % 10 = 0 then dropZeros allowed (digits / 10) (exponent + 1) else (digits, exponent)

/-- The shortest `digits * 10 ^ exponent` that rounds to a positive binary value. Seventeen digits
always suffice for a double. -/
def shortest (tie : Tie) (significand : Nat) (exponent : Int) : Nat × Int :=
  let interval := Interval.around significand exponent
  let (up, down) := interval.factor 0
  let point := pointPosition (interval.centre * up) down
  let tried := (List.range 17).findSome? fun count =>
    let step := point - (count + 1 : Nat)
    (interval.nearest? tie step).map fun digits => (digits, step)
  match tried with
  | some (digits, step) => dropZeros 17 digits step
  | none => (0, 0)

end MergeCost.Decimal
