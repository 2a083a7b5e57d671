/-!
Decimal numerals: a sign, a whole part, digits after the point and an exponent. The types hold
what a numeral says and leave no choice of spelling, so `Numeral.text` is the one way to write it.
-/

namespace MergeCost

abbrev Digit := Fin 10

namespace Digit

def char (digit : Digit) : Char := Char.ofNat (48 + digit.val)

def ofChar? (c : Char) : Option Digit :=
  if h : 48 ≤ c.toNat ∧ c.toNat < 58 then some ⟨c.toNat - 48, by omega⟩ else none

theorem ofChar?_char (digit : Digit) : ofChar? digit.char = some digit := by
  revert digit
  decide

end Digit

/-- A decimal numeral. No digit after the point means that no point is written; no exponent is
another numeral than the exponent 0. -/
structure Numeral where
  negative : Bool
  whole : Nat
  fraction : List Digit
  exponent : Option Int
deriving Repr, DecidableEq

namespace Numeral

def ofNat (count : Nat) : Numeral := ⟨false, count, [], none⟩

/-- The last digits of a count, as many as asked for. -/
def lastDigits : Nat → Nat → List Digit
  | 0, _ => []
  | width + 1, count => lastDigits width (count / 10) ++ [⟨count % 10, Nat.mod_lt _ (by decide)⟩]

/-- The digits of a count without leading zeros. -/
def wholeText (count : Nat) : String := String.ofList (Nat.toDigits 10 count)

/-- The digits after the point, and the point if there are any. -/
def fractionText (digits : List Digit) : String :=
  if digits = [] then "" else "." ++ String.ofList (digits.map Digit.char)

def signText (negative : Bool) : String := if negative then "-" else ""

def exponentText : Option Int → String
  | none => ""
  | some exponent => (if exponent < 0 then "e-" else "e+") ++ wholeText exponent.natAbs

def text (numeral : Numeral) : String :=
  signText numeral.negative ++ wholeText numeral.whole ++ fractionText numeral.fraction
    ++ exponentText numeral.exponent

/-- The positional numeral of `digits * 10 ^ exponent`. -/
def positional (negative : Bool) (digits : Nat) (exponent : Int) : Numeral :=
  let places := (-exponent).toNat
  let unit := Nat.pow 10 places
  let scaled := digits * Nat.pow 10 exponent.toNat
  ⟨negative, scaled / unit, lastDigits places (scaled % unit), none⟩

end Numeral

end MergeCost
