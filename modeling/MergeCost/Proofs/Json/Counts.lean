import MergeCost.Proofs.Device.Doubles
import MergeCost.Json.RoundTrip.Numerals
import MergeCost.Json.Number

/-!
A count is read from its own numeral as the double nearest to it.

All digits of a count of a word go into the significand, and no power of ten is left. What remains
is a double times one, which is the double itself, and finite.
-/

namespace MergeCost.Double

open Float.Model Float.Model.UnpackedFloat

theorem targetExponent_eq (mantissa : Nat) (exponent : Int) :
    Format.binary64.targetExponent (totalExponent mantissa exponent) =
      max (mantissa.log2 + exponent - 52) (-1074) := by
  simp only [Format.targetExponent, totalExponent, Format.mantissaBits, Format.minExponent]
  norm_num
  omega

theorem log2_mul_two_pow {mantissa : Nat} (positive : 0 < mantissa) (width : Nat) :
    (mantissa * 2 ^ width).log2 = mantissa.log2 + width := by
  induction width with
  | zero => simp
  | succ width ih =>
      have doubled : mantissa * 2 ^ (width + 1) = 2 * (mantissa * 2 ^ width) := by ring
      have nonzero : mantissa * 2 ^ width ≠ 0 := by positivity
      rw [doubled, Nat.log2_two_mul nonzero, ih, Nat.add_assoc]

/-- Zeros are shifted out without a rest. -/
theorem shift_zeros (mantissa width : Nat) :
    ExtendedMantissa.mk (mantissa * 2 ^ width) false false >>> width =
      ⟨mantissa, false, false⟩ := by
  induction width generalizing mantissa with
  | zero => simp [HShiftRight.hShiftRight, Nat.repeat]
  | succ width ih =>
      have regrouped : mantissa * 2 ^ (width + 1) = mantissa * 2 * 2 ^ width := by ring
      rw [regrouped]
      have step (extended : ExtendedMantissa) :
          extended >>> (width + 1) = (extended >>> width).shiftRightOne := rfl
      simp [step, ih, ExtendedMantissa.shiftRightOne]

theorem round_zeros {mantissa : Nat} {exponent : Int} (sign : Sign) (positive : 0 < mantissa)
    (settled : Format.binary64.targetExponent (totalExponent mantissa exponent) = exponent)
    (width : Nat) :
    roundWithAccuracy .binary64 sign (mantissa * 2 ^ width) (exponent - width) .exact =
      .finite sign mantissa exponent positive := by
  rw [targetExponent_eq] at settled
  have first : shiftToTargetExponent .binary64 (mantissa * 2 ^ width) (exponent - width) .exact =
      (⟨mantissa, false, false⟩, exponent) := by
    have amount : (exponent - (exponent - width)).toNat = width := by omega
    have target : max (((mantissa * 2 ^ width).log2 : Int) + (exponent - width) - 52) (-1074) =
        exponent := by
      rw [log2_mul_two_pow positive]
      omega
    rw [shiftToTargetExponent, targetExponent_eq, target, shiftToExponent, amount]
    simp [ExtendedMantissa.ofMantissaAndAccuracy, shift_zeros]
  have second : shiftToTargetExponent .binary64 mantissa exponent .exact =
      (⟨mantissa, false, false⟩, exponent) := by
    rw [shiftToTargetExponent, targetExponent_eq, settled, shiftToExponent, Int.sub_self]
    simp [ExtendedMantissa.ofMantissaAndAccuracy, HShiftRight.hShiftRight, Nat.repeat]
  simp [roundWithAccuracy, first, second, ExtendedMantissa.roundedMantissa,
    ExtendedMantissa.accuracy, Accuracy.roundToNearestEven, positive.ne']

theorem unpack_settled {value : Float} {sign : Sign} {mantissa : Nat} {exponent : Int}
    {positive : 0 < mantissa}
    (unpacked : value.toModel.unpack = .finite sign mantissa exponent positive) :
    Format.binary64.targetExponent (totalExponent mantissa exponent) = exponent := by
  have small := (@unpackMantissa .binary64 value.toModel.toBits.toBitVec).isLt
  rw [targetExponent_eq]
  simp only [Float.Model.unpack, UnpackedFloat.unpack] at unpacked
  split at unpacked
  · split at unpacked <;> cases unpacked
  · split at unpacked
    · split at unpacked
      · cases unpacked
      · next subnormal _ =>
          cases unpacked
          have short : _ < 52 := (Nat.log2_lt positive.ne').mpr small
          simp [subnormal, Format.exponentBias]
          omega
    · next normal =>
        cases unpacked
        have leading : ((1#1 ++ @unpackMantissa .binary64
            value.toModel.toBits.toBitVec).toNat).log2 = 52 := by
          refine (Nat.log2_eq_iff positive.ne').mpr ?_
          rw [BitVec.toNat_append, ← Nat.shiftLeft_add_eq_or_of_lt small]
          simp at small ⊢
          omega
        have := BitVec.toNat_ne_iff_ne.mpr normal
        simp [leading, Format.exponentBias] at this ⊢
        omega

theorem unpack_one :
    ∃ positive, (1 : Float).toModel.unpack = .finite .positive (2 ^ 52) (-52) positive :=
  ⟨by decide, by rfl⟩

theorem mul_one (value : Float) : value * 1 = value := by
  obtain ⟨_, one⟩ := unpack_one
  have product : value * 1 = .ofModel
      (pack (UnpackedFloat.mul .binary64 value.toModel.unpack (1 : Float).toModel.unpack)) := rfl
  have same : UnpackedFloat.mul .binary64 value.toModel.unpack (1 : Float).toModel.unpack =
      value.toModel.unpack := by
    rw [one]
    cases unpacked : value.toModel.unpack with
    | notANumber => rfl
    | infinity sign | zero sign => cases sign <;> rfl
    | finite sign mantissa exponent positive =>
        have rounded := round_zeros sign positive (unpack_settled unpacked) 52
        cases sign <;> exact rounded
  rw [product, same, pack_unpack]

theorem shift_mantissa (extended : ExtendedMantissa) (width : Nat) :
    (extended >>> width).mantissa = extended.mantissa / 2 ^ width := by
  induction width with
  | zero => simp [HShiftRight.hShiftRight, Nat.repeat]
  | succ width ih =>
      have step : extended >>> (width + 1) = (extended >>> width).shiftRightOne := rfl
      rw [step, ExtendedMantissa.shiftRightOne, ih, Nat.div_div_eq_div_mul, Nat.pow_succ]

theorem roundedMantissa_le (extended : ExtendedMantissa) :
    extended.roundedMantissa ≤ extended.mantissa + 1 := by
  obtain ⟨mantissa, round, sticky⟩ := extended
  cases round <;> cases sticky <;>
    simp only [ExtendedMantissa.roundedMantissa, ExtendedMantissa.accuracy,
      Accuracy.roundToNearestEven] <;> omega

theorem isInf_unpack {bits : BitVec Format.binary64.numBits} (plain : unpackExponent bits ≠ -1#11) :
    (UnpackedFloat.unpack .binary64 bits).isInf = false := by
  rw [UnpackedFloat.unpack]
  split
  · contradiction
  · split
    · split <;> rfl
    · rfl

theorem isInf_pack {sign : Sign} {mantissa : Nat} {exponent : Int} (positive : 0 < mantissa)
    (low : exponent ≤ 970) :
    (Float.Model.pack (.finite sign mantissa exponent positive)).isInf = false := by
  refine isInf_unpack ?_
  change unpackExponent (UnpackedFloat.pack .binary64 (.finite sign mantissa exponent positive)) ≠ _
  rw [UnpackedFloat.pack]
  have bias : Format.binary64.exponentBias = 1023 := rfl
  split
  · next overflow =>
      simp only [bias] at overflow
      norm_num at overflow
      omega
  · split
    · rw [unpackExponent_packComponents]
      refine BitVec.toNat_ne_iff_ne.mp ?_
      norm_num [bias]
      omega
    · rw [unpackExponent_packComponents]
      decide

theorem shift_exact (mantissa : Nat) (exponent : Int) :
    ∃ extended, extended.mantissa ≤ mantissa ∧
      shiftToTargetExponent .binary64 mantissa exponent .exact =
        (extended, max exponent (max (mantissa.log2 + exponent - 52) (-1074))) := by
  rw [shiftToTargetExponent, targetExponent_eq, shiftToExponent]
  refine ⟨_, ?_, Prod.ext rfl ?_⟩
  · rw [shift_mantissa]
    exact Nat.div_le_self _ _
  · dsimp only
    omega

theorem log2_le {mantissa width : Nat} (fits : mantissa ≤ 2 ^ width) : mantissa.log2 ≤ width := by
  by_cases zero : mantissa = 0
  · simp [zero]
  · refine Nat.lt_succ_iff.mp ((Nat.log2_lt zero).mpr (fits.trans_lt ?_))
    exact Nat.pow_lt_pow_right (by decide) (by omega)

/-- A mantissa of a word leaves its exponent low, also where it is rounded up. -/
theorem isInf_round {sign : Sign} {mantissa : Nat} {exponent : Int} (short : mantissa < 2 ^ 64)
    (low : exponent ≤ 0) :
    (Float.Model.pack (roundWithAccuracy .binary64 sign mantissa exponent .exact)).isInf =
      false := by
  obtain ⟨extended, extended_le, first⟩ := shift_exact mantissa exponent
  obtain ⟨settled, _, second⟩ := shift_exact extended.roundedMantissa
    (max exponent (max (mantissa.log2 + exponent - 52) (-1074)))
  have width : mantissa.log2 ≤ 64 := log2_le short.le
  have roundedWidth : extended.roundedMantissa.log2 ≤ 64 := by
    have := roundedMantissa_le extended
    exact log2_le (by omega)
  simp only [roundWithAccuracy, first, second]
  split
  · cases sign <;> rfl
  · exact isInf_pack _ (by omega)

theorem isInf_toFloat (word : UInt64) : word.toFloat.isInf = false := by
  change (Float.Model.pack (UnpackedFloat.normalize .binary64 word.toNat 0 .positive)).isInf = false
  rw [UnpackedFloat.normalize]
  have small := word.toNat_lt
  split
  · next negative =>
      have := Int.compare_eq_lt.mp negative
      omega
  · rfl
  · next positive =>
      have nonzero : word.toNat ≠ 0 := by
        have := Int.compare_eq_gt.mp positive
        omega
      rw [Int.toNat_natCast, UnpackedFloat.round, targetExponent_eq, decreaseExponent]
      refine isInf_round ?_ (by omega)
      rw [Nat.shiftLeft_eq, ← Nat.log2_lt (by positivity), log2_mul_two_pow (by omega)]
      have := (Nat.log2_lt nonzero).mpr small
      omega

theorem isInf_ofNat {count : Nat} (fits : count ≤ maxCount) : (ofNat count).isInf = false := by
  rw [ofNat, if_pos fits]
  exact isInf_toFloat _

end MergeCost.Double

namespace MergeCost.Numeral

theorem ofChar?_digit {c : Char} (digit : c.isDigit = true) :
    ∃ read : Digit, Digit.ofChar? c = some read ∧ read.val = c.toNat - '0'.toNat := by
  have bounds := Char.isDigit_iff_toNat.mp digit
  have inRange : 48 ≤ c.toNat ∧ c.toNat < 58 := by
    simp at bounds
    omega
  exact ⟨_, dif_pos inRange, rfl⟩

/-- Digits whose count fits into a significand are all absorbed. -/
theorem absorb_digits {digits : List Char} (all : ∀ c ∈ digits, c.isDigit = true)
    {significand : Nat} (fits : Nat.ofDigitChars 10 digits significand ≤ maxCount) :
    absorb significand (digits.filterMap Digit.ofChar?) =
      (Nat.ofDigitChars 10 digits significand, []) := by
  induction digits generalizing significand with
  | nil => rfl
  | cons c digits ih =>
      rw [List.forall_mem_cons] at all
      obtain ⟨read, found, value⟩ := ofChar?_digit all.1
      rw [Nat.ofDigitChars_cons, ← value] at fits ⊢
      have taken : 10 * significand + read.val ≤ maxCount := by
        rw [Nat.ofDigitChars_eq_ofDigitChars_zero] at fits
        have := Nat.le_mul_of_pos_left (10 * significand + read.val)
          (Nat.pow_pos (n := digits.length) (show 0 < 10 by decide))
        omega
      rw [List.filterMap_cons_some found, absorb, if_pos taken]
      exact ih all.2 fits

theorem significand_ofNat {count : Nat} (fits : count ≤ maxCount) :
    (ofNat count).significand = (count, 0) := by
  have written := Json.ofDigitChars_toDigits count
  have all : ∀ c ∈ Nat.toDigits 10 count, c.isDigit = true :=
    fun _ => Json.isDigit_of_mem_toDigits
  have absorbed := absorb_digits all (written.trans_le fits)
  rw [written] at absorbed
  simp only [significand, ofNat, digitsOf, absorbed]
  rfl

/-- A count is read from its own numeral as the nearest double. -/
theorem toDouble?_ofNat {count : Nat} (fits : count ≤ maxCount) :
    (ofNat count).toDouble? = some (Double.ofNat count) := by
  have one : powerOfTen 0 = 1 := by decide +kernel
  have scaled : scale (Double.ofNat count) 0 = some (Double.ofNat count) := by
    simp [scale, one, Double.mul_one, Double.isInf_ofNat fits]
  rw [toDouble?, significand_ofNat fits]
  dsimp only
  rw [scaled]
  rfl

end MergeCost.Numeral
