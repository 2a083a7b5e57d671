import MergeCost.Rounding
import Mathlib.Algebra.Order.Floor.Div

/-!
Rounding to whole units: what is lost by it, and units that are counted in larger units.
-/

namespace MergeCost

theorem unitsFor_eq_ceilDiv (amount unit : Nat) : unitsFor amount unit = amount ⌈/⌉ unit :=
  (Nat.ceilDiv_eq_add_pred_div ..).symm

theorem lt_unitsFor_iff {amount unit count : Nat} (positive : 0 < unit) :
    count < unitsFor amount unit ↔ count * unit < amount := by
  rw [← Nat.not_le, unitsFor_le_iff positive, Nat.not_le]

theorem le_unitsFor_mul (amount : Nat) {unit : Nat} (positive : 0 < unit) :
    amount ≤ unitsFor amount unit * unit :=
  (unitsFor_le_iff positive).mp (Nat.le_refl _)

/-- Less than one unit is lost to rounding. -/
theorem unitsFor_mul_le (amount : Nat) {unit : Nat} (positive : 0 < unit) :
    unitsFor amount unit * unit ≤ amount + (unit - 1) :=
  calc
    unitsFor amount unit * unit ≤ amount + unit - 1 := Nat.div_mul_le_self ..
    _ = amount + (unit - 1) := Nat.add_sub_assoc positive amount

@[simp] theorem unitsFor_one (amount : Nat) : unitsFor amount 1 = amount := by
  rw [unitsFor, Nat.add_sub_cancel, Nat.div_one]

/-- Rounding to units and then to groups of units loses no more than rounding to groups. -/
theorem unitsFor_unitsFor (amount : Nat) {unit group : Nat} (someUnit : 0 < unit)
    (someGroup : 0 < group) :
    unitsFor (unitsFor amount unit) group = unitsFor amount (group * unit) := by
  apply eq_of_forall_ge_iff
  intro count
  rw [unitsFor_le_iff someGroup, unitsFor_le_iff someUnit,
    unitsFor_le_iff (Nat.mul_pos someGroup someUnit), Nat.mul_assoc]

end MergeCost
