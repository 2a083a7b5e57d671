import Mathlib
import MergeCost.Scalar

/-!
The sum of zero and a double. A sum is computed on the parts of its terms; taking a double apart and
putting it together again gives the same double.
-/

namespace MergeCost.Double

open Float.Model

theorem pack_unpack (value : Float) : Float.ofModel (pack value.toModel.unpack) = value := by
  obtain ⟨⟨bits, valid⟩⟩ := value
  have same := UnpackedFloat.pack_unpack_of_valid valid
  simp only [pack, unpack, same]

theorem unpacked_zero_add {value : UnpackedFloat} (nonneg : value ≠ .zero .negative) :
    UnpackedFloat.add .binary64 (.zero .positive) value = value := by
  cases value with
  | zero sign =>
      cases sign with
      | positive => rfl
      | negative => contradiction
  | infinity | notANumber | finite => rfl

/-- Zero is neutral on the left but for negative zero. -/
theorem zero_add (value : Float) :
    Scalar.zero + value = value ∨ value = -0 ∧ Scalar.zero + value = 0 := by
  have zero : (Scalar.zero : Float) = .ofModel (pack (.zero .positive)) := by decide +kernel
  have sum : Scalar.zero + value = .ofModel
      (pack (UnpackedFloat.add .binary64 (.zero .positive) value.toModel.unpack)) := by
    rw [zero]
    rfl
  by_cases negative : value.toModel.unpack = .zero .negative
  · have value_eq : value = -0 := by
      rw [← pack_unpack value, negative]
      decide +kernel
    refine .inr ⟨value_eq, ?_⟩
    rw [sum, negative]
    decide +kernel
  · rw [sum, unpacked_zero_add negative, pack_unpack]
    exact .inl rfl

end MergeCost.Double
