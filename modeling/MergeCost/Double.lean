/-!
Doubles as counts, as places in their total order, and as significand and exponent.
-/

namespace MergeCost

/-- The largest count that a 64-bit word holds. -/
def maxCount : Nat := UInt64.size - 1

namespace Double

/-- A count as the nearest double; a tie goes to the even neighbour. -/
def ofNat (count : Nat) : Float :=
  if count ≤ maxCount then count.toUInt64.toFloat else Float.ofNat count

/-- The whole part of a double, within the range of a 64-bit word: 0 for NaN and below zero. -/
def floor (value : Float) : Nat := value.toUInt64.toNat

/-- The nearest count within the range of a 64-bit word; halves go up. -/
def round (value : Float) : Nat :=
  let whole := value.toUInt64
  if 0.5 ≤ value - whole.toFloat then min (whole.toNat + 1) maxCount else whole.toNat

/-- The place of a double in the total order of its bits: negative values descend in their bits,
and all of them come before the positive ones. -/
def rank (value : Float) : Nat :=
  let bits := value.toBits.toNat
  if bits < 1 <<< 63 then bits + (1 <<< 63) else maxCount - bits

/-- What the bits of a double stand for; a finite one is `significand * 2 ^ exponent` with its
sign. -/
inductive Parts where
  | nan
  | infinite (negative : Bool)
  | finite (negative : Bool) (significand : Nat) (exponent : Int)
deriving Repr, DecidableEq

def parts (value : Float) : Parts :=
  let bits := value.toBits.toNat
  let negative := decide (1 <<< 63 ≤ bits)
  let scale : Nat := (bits >>> 52) % (1 <<< 11)
  let fraction := bits % (1 <<< 52)
  if scale = 2047 then
    if fraction = 0 then .infinite negative else .nan
  else if scale = 0 then .finite negative fraction (-1074)
  else .finite negative ((1 <<< 52) + fraction) (Int.ofNat scale - 1075)

end Double

end MergeCost
