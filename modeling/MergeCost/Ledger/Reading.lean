import MergeCost.Scalar
import MergeCost.Decimal.Text
import MergeCost.Json.Record

/-!
What a counter shows: seconds or a count.
-/

namespace MergeCost

inductive Reading (τ : Type) where
  | time (seconds : τ)
  | count (amount : Nat)
deriving Repr

namespace Reading

variable {τ : Type} [Scalar τ]

def isTime : Reading τ → Bool
  | .time _ => true
  | .count _ => false

def toScalar : Reading τ → τ
  | .time seconds => seconds
  | .count amount => Scalar.ofNat amount

/-- The whole seconds of a time, or the count. -/
def toCount : Reading τ → Nat
  | .time seconds => Scalar.floor seconds
  | .count amount => amount

/-- The number of decimal places of a time in a report. -/
def timePlaces : Nat := 9

def text : Reading Float → String
  | .time seconds => Decimal.fixedText timePlaces seconds
  | .count amount => toString amount

def toJson : Reading Float → Json
  | .time seconds => .ofDouble seconds
  | .count amount => .ofNat amount

/-- Every number is read as a time, a whole one too. -/
def ofJson (value : Json) : Except Json.Fault (Reading Float) :=
  value.toDouble.map .time

end Reading

end MergeCost
