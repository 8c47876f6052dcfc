import Wirepack.Wire.Zigzag

/-!
# Zigzag numbers come back

Both widths map by the same three steps on the bits of a number: a shift, the spread of the sign
over all bits, and an exclusive or. The argument is made once, for any width, on bit vectors.
-/

namespace Wirepack.Zigzag
set_option autoImplicit false

/-- The sign of `x` in every bit. -/
def signBits {w : Nat} (x : BitVec w) : BitVec w := if x.msb then BitVec.allOnes w else 0#w

theorem getLsbD_signBits {w : Nat} (x : BitVec w) (i : Nat) :
    (signBits x).getLsbD i = (decide (i < w) && x.msb) := by
  unfold signBits
  cases x.msb <;> simp

theorem sshiftRight_eq_signBits {w : Nat} (x : BitVec (w + 1)) : x.sshiftRight w = signBits x := by
  apply BitVec.eq_of_getLsbD_eq
  intro i inside
  rw [BitVec.getLsbD_sshiftRight, getLsbD_signBits]
  rcases Nat.eq_zero_or_pos i with rfl | above
  · simp [BitVec.msb_eq_getLsbD_last]
  · simp [inside, show ¬ w + 1 ≤ i by omega, show ¬ w + i < w + 1 by omega]

/-- The low bit of a mapped number is the sign of the number it came from. -/
theorem neg_lowBit {w : Nat} (x : BitVec (w + 1)) :
    -((x <<< 1 ^^^ signBits x) &&& 1#(w + 1)) = signBits x := by
  rw [BitVec.and_one_eq_setWidth_ofBool_getLsbD, signBits]
  cases x.msb <;> simp [BitVec.neg_one_eq_allOnes]

theorem unmap_map {w : Nat} (x : BitVec (w + 1)) :
    (x <<< 1 ^^^ x.sshiftRight w) >>> 1 ^^^ -((x <<< 1 ^^^ x.sshiftRight w) &&& 1#(w + 1)) = x := by
  rw [sshiftRight_eq_signBits, neg_lowBit]
  apply BitVec.eq_of_getLsbD_eq
  intro i inside
  simp only [BitVec.getLsbD_xor, BitVec.getLsbD_ushiftRight, BitVec.getLsbD_shiftLeft, getLsbD_signBits]
  rcases Nat.lt_or_ge i w with below | last
  · have next : 1 + i < w + 1 := by omega
    simp [inside, next]
  · -- The shift to the left has lost the sign bit; the spread sign restores it.
    obtain rfl : i = w := by omega
    simp [BitVec.msb_eq_getLsbD_last, show ¬ 1 + i < i + 1 by omega]

theorem decode32_encode32 (n : Int32) : decode32 (encode32 n) = n := by
  apply Int32.toBitVec_inj.1
  simpa [decode32, encode32] using unmap_map n.toBitVec

theorem decode64_encode64 (n : Int64) : decode64 (encode64 n) = n := by
  apply Int64.toBitVec_inj.1
  simpa [decode64, encode64] using unmap_map n.toBitVec

/-- The low bit in every bit. -/
theorem neg_and_one {w : Nat} (u : BitVec (w + 1)) :
    -(u &&& 1#(w + 1)) = if u.getLsbD 0 then BitVec.allOnes (w + 1) else 0#(w + 1) := by
  rw [BitVec.and_one_eq_setWidth_ofBool_getLsbD]
  cases u.getLsbD 0 <;> simp [BitVec.neg_one_eq_allOnes]

theorem map_unmap {w : Nat} (u : BitVec (w + 1)) :
    (u >>> 1 ^^^ -(u &&& 1#(w + 1))) <<< 1 ^^^ (u >>> 1 ^^^ -(u &&& 1#(w + 1))).sshiftRight w = u := by
  have sign : (u >>> 1 ^^^ -(u &&& 1#(w + 1))).msb = u.getLsbD 0 := by
    rw [neg_and_one, BitVec.msb_xor, BitVec.msb_ushiftRight]
    cases u.getLsbD 0 <;> simp [BitVec.msb_allOnes]
  rw [sshiftRight_eq_signBits]
  apply BitVec.eq_of_getLsbD_eq
  intro i inside
  rw [BitVec.getLsbD_xor, getLsbD_signBits, sign, neg_and_one, BitVec.getLsbD_shiftLeft, BitVec.getLsbD_xor,
    BitVec.getLsbD_ushiftRight]
  rcases Nat.eq_zero_or_pos i with rfl | above
  · simp
  · have back : 1 + (i - 1) = i := by omega
    cases u.getLsbD 0 <;> simp [inside, back, show ¬ i < 1 by omega, show i - 1 < w + 1 by omega]

theorem encode32_decode32 (u : UInt32) : encode32 (decode32 u) = u := by
  apply UInt32.toBitVec_inj.1
  simpa [decode32, encode32] using map_unmap u.toBitVec

theorem encode64_decode64 (u : UInt64) : encode64 (decode64 u) = u := by
  apply UInt64.toBitVec_inj.1
  simpa [decode64, encode64] using map_unmap u.toBitVec

end Wirepack.Zigzag
