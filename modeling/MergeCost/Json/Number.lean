import MergeCost.Json.Basic
import MergeCost.Decimal.Shortest

/-!
Numerals as counts and as doubles, read and written.

A double is read in working precision: the digits go into a 64-bit significand for as long as they
fit, and the significand is scaled by a rounded power of ten. This is exact for the numerals of up
to fifteen digits that people write, and within a few units of the last place for the others.
-/

namespace MergeCost.Numeral

/-- The count that a numeral writes, if it is a plain one within the range of a 64-bit word. -/
def toCount? (numeral : Numeral) : Option Nat :=
  match numeral with
  | ⟨false, whole, [], none⟩ => if whole ≤ maxCount then some whole else none
  | _ => none

theorem toCount?_ofNat {count : Nat} (fits : count ≤ maxCount) :
    (ofNat count).toCount? = some count := if_pos fits

/-- Takes digits into a significand for as long as it fits into 64 bits; gives the digits that are
left. -/
def absorb (significand : Nat) : List Digit → Nat × List Digit
  | [] => (significand, [])
  | digit :: rest =>
      if 10 * significand + digit.val ≤ maxCount then absorb (10 * significand + digit.val) rest
      else (significand, digit :: rest)

def digitsOf (count : Nat) : List Digit := (Nat.toDigits 10 count).filterMap Digit.ofChar?

/-- The significand of a numeral and its power of ten. A digit of the whole part that does not fit
still counts for its place; one after the point does not. -/
def significand (numeral : Numeral) : Nat × Int :=
  let (whole, dropped) := absorb 0 (digitsOf numeral.whole)
  let (significand, unread) := absorb whole numeral.fraction
  let places : Int := numeral.fraction.length - unread.length
  (significand, dropped.length - places + numeral.exponent.getD 0)

def powerOfTen (exponent : Nat) : Float := Float.ofScientific 1 false exponent

/-- The largest power of ten by which a double is scaled in one step. -/
def largestPower : Nat := 308

/-- Divides by the largest power again and again, until nothing is left. -/
def shrink : Nat → Float → Float
  | 0, value => value
  | steps + 1, value => if value == 0 then value else shrink steps (value / powerOfTen largestPower)

/-- A double times a power of ten; `none` beyond the finite doubles. -/
def scale (value : Float) (exponent : Int) : Option Float :=
  if exponent < 0 then
    let places := exponent.natAbs
    let steps := (places - 1) / largestPower
    some (shrink steps value / powerOfTen (places - steps * largestPower))
  else if exponent ≤ largestPower then
    let scaled := value * powerOfTen exponent.toNat
    if scaled.isInf then none else some scaled
  else if value == 0 then some value
  else none

def toDouble? (numeral : Numeral) : Option Float :=
  let (significand, exponent) := numeral.significand
  (scale (Double.ofNat significand) exponent).map fun value =>
    if numeral.negative then -value else value

/-- Numbers from `10 ^ (lowestPlain - 1)` on and below `10 ^ highestPlain` are written without an
exponent. -/
def lowestPlain : Int := -4

def highestPlain : Int := 16

/-- The shortest numeral that stands for a double, a tie between two going to the even digit.
A point is always written where there is no exponent. There is no numeral for NaN and the
infinities. -/
def ofDouble? (value : Float) : Option Numeral :=
  match Double.parts value with
  | .nan => none
  | .infinite _ => none
  | .finite negative 0 _ => some ⟨negative, 0, [0], none⟩
  | .finite negative binary exponent =>
      let (digits, step) := Decimal.shortest .toEven binary exponent
      let width : Int := Decimal.width digits
      let point := step + width
      if lowestPlain ≤ point ∧ point ≤ highestPlain then
        let plain := positional negative digits step
        some (if plain.fraction = [] then ⟨negative, plain.whole, [0], none⟩ else plain)
      else
        let mantissa := positional negative digits (1 - width)
        some ⟨negative, mantissa.whole, mantissa.fraction, some (point - 1)⟩

end MergeCost.Numeral

namespace MergeCost.Json

/-- A double as a value; those that are no number are null. -/
def ofDouble (value : Float) : Json :=
  match Numeral.ofDouble? value with
  | some numeral => .number numeral
  | none => .null

end MergeCost.Json
