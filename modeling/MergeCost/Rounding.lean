/-!
Counts: the whole units that hold an amount, and sums.
-/

namespace MergeCost

/-- The number of units of a size that an amount fills, the last one perhaps in part. -/
def unitsFor (amount unit : Nat) : Nat := (amount + unit - 1) / unit

@[simp] theorem unitsFor_zero (unit : Nat) : unitsFor 0 unit = 0 := by
  cases unit with
  | zero => rfl
  | succ unit =>
      have : 0 + (unit + 1) - 1 < unit + 1 := by omega
      exact Nat.div_eq_of_lt this

theorem unitsFor_le_iff {amount unit count : Nat} (positive : 0 < unit) :
    unitsFor amount unit ≤ count ↔ amount ≤ count * unit := by
  have step : amount + unit - 1 < unit * (count + 1) ↔ amount ≤ count * unit := by
    rw [Nat.mul_add, Nat.mul_one, Nat.mul_comm unit count]
    omega
  rw [unitsFor, ← Nat.lt_succ_iff, Nat.div_lt_iff_lt_mul positive, Nat.mul_comm]
  exact step

def total (counts : List Nat) : Nat := counts.foldr (· + ·) 0

end MergeCost
