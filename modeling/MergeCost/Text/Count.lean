import MergeCost.Double
import MergeCost.Text.Blank

/-!
Counts as people type them: blanks around, perhaps a plus sign, and decimal digits.
-/

namespace MergeCost.Text

def withoutPlus : List Char → List Char
  | '+' :: digits => digits
  | digits => digits

/-- The count that a text stands for, if it fits into a 64-bit word. -/
def count? (text : String) : Option Nat :=
  let digits := withoutPlus (trim text.toList)
  if digits ≠ [] ∧ digits.all Char.isDigit then
    let count := Nat.ofDigitChars 10 digits 0
    if count ≤ maxCount then some count else none
  else none

end MergeCost.Text
