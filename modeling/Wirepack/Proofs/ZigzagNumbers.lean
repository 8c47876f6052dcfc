import Wirepack.Proofs.Runs
import Wirepack.Proofs.Zigzag
import Wirepack.Wire.Buffer
import Wirepack.Wire.Cursor

/-!
# Zigzag numbers as integers

On integers the mapping is plain arithmetic: a number from zero on is doubled, and a negative one goes to
the odd number between the doubles. Nothing is lost in either width, so the wider mapping continues the
narrower one. Lengths rely on that: they are written in 64 bits and look like integers of 32.
-/

namespace Wirepack
set_option autoImplicit false

namespace Zigzag

/-- Where an integer goes, without regard to any width. -/
def onInt (n : Int) : Int := if 0 ≤ n then 2 * n else -2 * n - 1

theorem toNat_map {w : Nat} (x : BitVec (w + 1)) :
    ((x <<< 1 ^^^ x.sshiftRight w).toNat : Int) = onInt x.toInt := by
  have bound := x.isLt
  have double : 2 ^ (w + 1) = 2 * 2 ^ w := Nat.pow_succ'
  have shifted : (x <<< 1).toNat = 2 * x.toNat % 2 ^ (w + 1) := by
    rw [BitVec.toNat_shiftLeft, Nat.shiftLeft_eq, Nat.mul_comm]
  rw [sshiftRight_eq_signBits, signBits, onInt, BitVec.toInt_eq_msb_cond]
  by_cases negative : x.msb
  · have high : 2 ^ w ≤ x.toNat := by simpa [BitVec.msb_eq_toNat] using negative
    have wrapped : 2 * x.toNat % 2 ^ (w + 1) = 2 * x.toNat - 2 ^ (w + 1) := by
      rw [Nat.mod_eq_sub_mod (by omega), Nat.mod_eq_of_lt (by omega)]
    -- Exclusive or with all ones is the complement, so the sign turns a double into its neighbour below.
    rw [if_pos negative, if_pos negative, BitVec.xor_allOnes, BitVec.toNat_not, shifted, wrapped]
    omega
  · have low : x.toNat < 2 ^ w := by simpa [BitVec.msb_eq_toNat] using negative
    rw [if_neg negative, if_neg negative, BitVec.xor_zero, shifted, Nat.mod_eq_of_lt (by omega)]
    omega

theorem toNat_encode32 (n : Int32) : ((encode32 n).toNat : Int) = onInt n.toInt := by
  have bits : (encode32 n).toBitVec = n.toBitVec <<< 1 ^^^ n.toBitVec.sshiftRight 31 := by simp [encode32]
  show ((encode32 n).toBitVec.toNat : Int) = onInt n.toBitVec.toInt
  rw [bits, toNat_map]

theorem toNat_encode64 (n : Int64) : ((encode64 n).toNat : Int) = onInt n.toInt := by
  have bits : (encode64 n).toBitVec = n.toBitVec <<< 1 ^^^ n.toBitVec.sshiftRight 63 := by simp [encode64]
  show ((encode64 n).toBitVec.toNat : Int) = onInt n.toBitVec.toInt
  rw [bits, toNat_map]

/-- The wider mapping continues the narrower one. -/
theorem encode64_toInt64 (n : Int32) : encode64 n.toInt64 = (encode32 n).toUInt64 := by
  have narrow := toNat_encode32 n
  have wide := toNat_encode64 n.toInt64
  rw [Int32.toInt_toInt64] at wide
  apply UInt64.toNat_inj.1
  rw [UInt32.toNat_toUInt64]
  omega

/-- What fits 32 bits unsigned stands for the same integer in both widths. -/
theorem decode64_eq {u : UInt64} (small : u.toNat < UInt32.size) : decode64 u = (decode32 u.toUInt32).toInt64 := by
  have same : encode64 (decode32 u.toUInt32).toInt64 = u := by
    rw [encode64_toInt64, encode32_decode32]
    apply UInt64.toNat_inj.1
    rw [UInt32.toNat_toUInt64, UInt64.toNat_toUInt32]
    exact Nat.mod_eq_of_lt small
  rw [← decode64_encode64 (decode32 u.toUInt32).toInt64, same]

end Zigzag

theorem Buffer.putLength_eq_putInt (b : Buffer) {count : Nat} (small : count ≤ 0x7FFFFFFF) :
    b.putLength count = b.putInt (Int32.ofNat count) := by
  have narrow : (Int32.ofNat count).toInt = count := Int32.toInt_ofNat_of_lt (by omega)
  have wide : (Int64.ofNat count).toInt = count := Int64.toInt_ofNat_of_lt (by omega)
  have same : Int64.ofNat count = (Int32.ofNat count).toInt64 := by
    apply Int64.toInt_inj.1
    rw [Int32.toInt_toInt64, narrow, wide]
  unfold putLength putLong putInt
  rw [same, Zigzag.encode64_toInt64]

/-- Both reads of an integer go by the varint at the cursor. -/
theorem Cursor.int_and_long {c after : Cursor} {u : UInt64} (run : Cursor.varint c = .ok u after) :
    Cursor.int c = .ok (Zigzag.decode32 u.toUInt32) after ∧ Cursor.long c = .ok (Zigzag.decode64 u) after := by
  unfold int long
  exact ⟨Run.bind_eq_ok.2 ⟨u, after, run, rfl⟩, Run.bind_eq_ok.2 ⟨u, after, run, rfl⟩⟩

namespace Zigzag

/-- In both widths the mapping and its inverse undo one another on every number, and the mapping is that
on integers, with nothing wrapped. So the widths agree on every integer of 32 bits; a length that is one
is appended as one; and where a varint is below 2^32, both reads give the same integer. -/
theorem widths_agree :
    (∀ n : Int32, decode32 (encode32 n) = n ∧
      ((encode32 n).toNat : Int) = if 0 ≤ n.toInt then 2 * n.toInt else -2 * n.toInt - 1) ∧
    (∀ u : UInt32, encode32 (decode32 u) = u) ∧
    (∀ n : Int64, decode64 (encode64 n) = n ∧
      ((encode64 n).toNat : Int) = if 0 ≤ n.toInt then 2 * n.toInt else -2 * n.toInt - 1) ∧
    (∀ u : UInt64, encode64 (decode64 u) = u) ∧
    (∀ n : Int32, (encode32 n).toUInt64 = encode64 n.toInt64) ∧
    (∀ (b : Buffer) (count : Nat), count ≤ 0x7FFFFFFF →
      (Int32.ofNat count).toInt = count ∧ b.putLength count = b.putInt (Int32.ofNat count)) ∧
    ∀ (c after : Cursor) (u : UInt64), Cursor.varint c = .ok u after → u.toNat < UInt32.size →
      ∃ narrow wide, Cursor.int c = .ok narrow after ∧ Cursor.long c = .ok wide after ∧
        narrow.toInt = wide.toInt := by
  refine ⟨fun n => ⟨decode32_encode32 n, toNat_encode32 n⟩, encode32_decode32,
    fun n => ⟨decode64_encode64 n, toNat_encode64 n⟩, encode64_decode64, fun n => (encode64_toInt64 n).symm, ?_, ?_⟩
  · intro b count small
    exact ⟨Int32.toInt_ofNat_of_lt (by omega), b.putLength_eq_putInt small⟩
  · intro c after u run small
    obtain ⟨int, long⟩ := Cursor.int_and_long run
    refine ⟨_, _, int, long, ?_⟩
    rw [decode64_eq small, Int32.toInt_toInt64]

/-- The ends of the narrow range: the largest length, and the least integer as a varint of five bytes. -/
theorem widths_agree_at_ends :
    Buffer.empty.putLength 0x7FFFFFFF = Buffer.empty.putInt (Int32.ofNat 0x7FFFFFFF) ∧
    ∃ narrow wide, Cursor.int ⟨0, [0xFF, 0xFF, 0xFF, 0xFF, 0x0F]⟩ = .ok narrow ⟨5, []⟩ ∧
      Cursor.long ⟨0, [0xFF, 0xFF, 0xFF, 0xFF, 0x0F]⟩ = .ok wide ⟨5, []⟩ ∧ narrow.toInt = wide.toInt := by
  obtain ⟨-, -, -, -, -, lengths, reads⟩ := widths_agree
  have run : Cursor.varint ⟨0, [0xFF, 0xFF, 0xFF, 0xFF, 0x0F]⟩ = .ok 0xFFFFFFFF ⟨5, []⟩ := by rfl
  exact ⟨(lengths Buffer.empty 0x7FFFFFFF (by decide)).2, reads _ _ _ run (by decide)⟩

end Zigzag

end Wirepack
