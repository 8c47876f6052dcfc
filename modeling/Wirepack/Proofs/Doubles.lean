import Mathlib.Algebra.Group.Nat.Defs
import Wirepack.Double

/-!
# Doubles made from other numbers are finite

Rounding drops the digits that do not fit, and may then carry into one more digit and drop again.
Each time the exponent grows by no more than the number of digits. Integers of 64 bits and
single-precision floats are so far below the largest double that this rough bound is enough.
-/

namespace Wirepack.Double
set_option autoImplicit false

open Float.Model (Format UnpackedFloat)
open Float.Model.UnpackedFloat

/-- The float is finite, and its exponent is no larger than that of the largest double. -/
inductive InRange : UnpackedFloat → Prop where
  | zero (sign : Sign) : InRange (.zero sign)
  | finite (sign : Sign) (mantissa : Nat) {exponent : Int} (positive : 0 < mantissa) (small : exponent ≤ 971) :
      InRange (.finite sign mantissa exponent positive)

theorem isFinite_unpack {format : Format} {bits : BitVec format.numBits}
    (exponent : unpackExponent bits ≠ -1#_) : (unpack format bits).isFinite = true := by
  unfold unpack
  dsimp only
  rw [if_neg exponent]
  by_cases subnormal : unpackExponent bits = 0#_
  · rw [if_pos subnormal]
    by_cases zero : unpackMantissa bits = 0#_
    · rw [dif_pos zero]
      rfl
    · rw [dif_neg zero]
      rfl
  · rw [if_neg subnormal]
    rfl

theorem isFinite_pack {value : UnpackedFloat} (inRange : InRange value) :
    (Float.ofModel (.pack value)).isFinite = true := by
  apply isFinite_unpack
  show unpackExponent (pack Format.binary64 value) ≠ _
  cases inRange with
  | zero sign =>
    have packed : pack Format.binary64 (.zero sign) = packComponents Format.binary64 sign 0 0 := rfl
    rw [packed]
    simp
  | @finite sign mantissa exponent positive small =>
    have packed : pack Format.binary64 (.finite sign mantissa exponent positive) =
        if 2048 ≤ (exponent + 1023 + 52).toNat + 1 then packedInfinity Format.binary64 sign
        else if mantissa.log2 + 1 = 53 then
          packComponents Format.binary64 sign (BitVec.ofNat 11 (exponent + 1023 + 52).toNat) (BitVec.ofNat 52 mantissa)
        else packComponents Format.binary64 sign 0#11 (BitVec.ofNat 52 mantissa) := rfl
    rw [packed]
    split
    · omega
    · split
      · simp [← BitVec.toNat_inj]
        omega
      · simp

theorem mantissa_shiftRight_le (extended : ExtendedMantissa) (count : Nat) :
    (extended >>> count).mantissa ≤ extended.mantissa := by
  induction count with
  | zero => exact Nat.le_refl _
  | succ count ih =>
    show (extended >>> count).mantissa / 2 ≤ extended.mantissa
    omega

theorem roundedMantissa_le (extended : ExtendedMantissa) :
    extended.roundedMantissa ≤ extended.mantissa + 1 := by
  unfold ExtendedMantissa.roundedMantissa ExtendedMantissa.accuracy
  split <;> simp [Accuracy.roundToNearestEven]
  omega

/-- Dropping digits leaves no larger a mantissa, and an exponent larger by no more than the number
of digits. -/
theorem shiftToTargetExponent_le {mantissa digits : Nat} (small : mantissa < 2 ^ digits) (exponent : Int)
    (accuracy : Accuracy) :
    (shiftToTargetExponent Format.binary64 mantissa exponent accuracy).1.mantissa ≤ mantissa ∧
      (shiftToTargetExponent Format.binary64 mantissa exponent accuracy).2 ≤ max (exponent + digits) (-1074) := by
  have leading : mantissa.log2 ≤ digits := by
    rcases Nat.eq_zero_or_pos mantissa with rfl | positive
    · simp
    · exact Nat.le_of_lt ((Nat.log2_lt (Nat.ne_of_gt positive)).2 small)
  have lowest : Format.binary64.minExponent = -1074 := rfl
  have precision : Format.binary64.mantissaBits = 53 := rfl
  constructor
  · apply Nat.le_trans (mantissa_shiftRight_le _ _)
    unfold ExtendedMantissa.ofMantissaAndAccuracy
    split <;> exact Nat.le_refl _
  · simp only [shiftToTargetExponent, shiftToExponent, Format.targetExponent, Float.Model.totalExponent, lowest,
      precision]
    omega

/-- Rounding to a double a number that is far from the largest one. -/
theorem inRange_round {mantissa : Nat} {exponent : Int} (small : mantissa < 2 ^ 64) (low : exponent ≤ 200)
    (sign : Sign) : InRange (UnpackedFloat.round Format.binary64 sign mantissa exponent) := by
  unfold UnpackedFloat.round decreaseExponent roundWithAccuracy
  dsimp only
  have target : mantissa.log2 + 1 + exponent - 53 ≤
      Format.binary64.targetExponent (Float.Model.totalExponent mantissa exponent) := Int.le_max_left _ _
  -- The mantissa is first given the digits that it has too few of, which are 52 at most.
  generalize added : (exponent - Format.binary64.targetExponent _).toNat = zeros
  have wide : mantissa <<< zeros < 2 ^ 116 := by
    have few : zeros ≤ 52 := by omega
    rw [Nat.shiftLeft_eq]
    calc mantissa * 2 ^ zeros < 2 ^ 64 * 2 ^ zeros := Nat.mul_lt_mul_of_pos_right small (Nat.two_pow_pos zeros)
      _ ≤ 2 ^ 64 * 2 ^ 52 := Nat.mul_le_mul_left _ (Nat.pow_le_pow_right (by decide) few)
  obtain ⟨kept, first⟩ := shiftToTargetExponent_le wide (exponent - zeros) .exact
  generalize shiftToTargetExponent Format.binary64 (mantissa <<< zeros) (exponent - zeros) .exact = shifted at kept first ⊢
  have rounded : shifted.1.roundedMantissa < 2 ^ 117 := by
    have carried := roundedMantissa_le shifted.1
    omega
  obtain ⟨-, second⟩ := shiftToTargetExponent_le rounded shifted.2 .exact
  by_cases zero : (shiftToTargetExponent Format.binary64 shifted.1.roundedMantissa shifted.2 .exact).1.mantissa = 0
  · rw [dif_pos zero]
    exact .zero sign
  · rw [dif_neg zero]
    exact .finite sign _ _ (by omega)

theorem isFinite_ofInt {value : Int} (small : value.natAbs < 2 ^ 64) : (ofInt value).isFinite = true := by
  apply isFinite_pack
  unfold UnpackedFloat.ofInt UnpackedFloat.normalize
  split
  · exact inRange_round (by omega) (by decide) .negative
  · exact .zero _
  · exact inRange_round (by omega) (by decide) .positive

/-- What a single-precision float is made of: 24 digits and an exponent of eight bits. -/
theorem unpack_single_eq_finite {bits : BitVec Format.binary32.numBits} {sign : Sign} {mantissa : Nat}
    {exponent : Int} {positive : 0 < mantissa}
    (unpacked : unpack Format.binary32 bits = .finite sign mantissa exponent positive) :
    mantissa < 2 ^ 24 ∧ exponent ≤ 106 := by
  have field : (unpackExponent bits).toNat < 2 ^ 8 := (unpackExponent bits).isLt
  have fraction : (unpackMantissa bits).toNat < 2 ^ 23 := (unpackMantissa bits).isLt
  have normal : (1#1 ++ unpackMantissa bits).toNat < 2 ^ 24 := (1#1 ++ unpackMantissa bits).isLt
  have bias : Format.binary32.exponentBias = 127 := rfl
  unfold unpack at unpacked
  dsimp only at unpacked
  by_cases special : unpackExponent bits = -1#_
  · rw [if_pos special] at unpacked
    by_cases zero : unpackMantissa bits = 0#_
    · rw [if_pos zero] at unpacked
      cases unpacked
    · rw [if_neg zero] at unpacked
      cases unpacked
  · rw [if_neg special] at unpacked
    by_cases subnormal : unpackExponent bits = 0#_
    · rw [if_pos subnormal] at unpacked
      by_cases zero : unpackMantissa bits = 0#_
      · rw [dif_pos zero] at unpacked
        cases unpacked
      · rw [dif_neg zero] at unpacked
        cases unpacked
        omega
    · rw [if_neg subnormal] at unpacked
      cases unpacked
      omega

theorem isFinite_ofSingle {value : Float32} (finite : value.isFinite = true) :
    (ofSingle value).isFinite = true := by
  apply isFinite_pack
  have single : value.toModel.unpack.isFinite = true := finite
  cases unpacked : value.toModel.unpack with
  | zero sign => exact .zero sign
  | finite sign mantissa exponent positive =>
    obtain ⟨small, low⟩ := unpack_single_eq_finite unpacked
    exact inRange_round (by omega) (by omega) sign
  | _ =>
    rw [unpacked] at single
    cases single

end Wirepack.Double
