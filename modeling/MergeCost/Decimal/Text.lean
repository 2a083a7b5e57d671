import MergeCost.Decimal.Shortest
import MergeCost.Decimal.Numeral

/-!
Doubles as text: the shortest digits in positional notation, and a fixed number of places.
-/

namespace MergeCost.Decimal

/-- A quotient rounded to the nearest count; a tie goes to the even neighbour. -/
def roundDiv (above below : Nat) : Nat :=
  let quotient := above / below
  let twice := 2 * (above % below)
  if twice < below then quotient
  else if below < twice then quotient + 1
  else quotient + quotient % 2

def infinityText (negative : Bool) : String := if negative then "-inf" else "inf"

/-- The shortest digits that read back, never with an exponent, and without a point in a whole
number. A tie between two decimals goes up. -/
def plainText (value : Float) : String :=
  match Double.parts value with
  | .nan => "NaN"
  | .infinite negative => infinityText negative
  | .finite negative 0 _ => (Numeral.positional negative 0 0).text
  | .finite negative significand exponent =>
      let (digits, step) := shortest .up significand exponent
      (Numeral.positional negative digits step).text

/-- A binary value rounded to a number of decimal places, as a count of its last place. -/
def roundToPlaces (places : Nat) (significand : Nat) (exponent : Int) : Nat :=
  roundDiv (significand * Nat.pow 2 exponent.toNat * Nat.pow 10 places)
    (Nat.pow 2 (-exponent).toNat)

/-- The exact value rounded to a number of decimal places; a tie goes to the even digit. -/
def fixedText (places : Nat) (value : Float) : String :=
  match Double.parts value with
  | .nan => "NaN"
  | .infinite negative => infinityText negative
  | .finite negative significand exponent =>
      (Numeral.positional negative (roundToPlaces places significand exponent) (-places)).text

end MergeCost.Decimal
