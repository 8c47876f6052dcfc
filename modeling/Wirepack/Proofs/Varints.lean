import Wirepack.Proofs.Progress
import Wirepack.Proofs.Reading

/-!
# Varints on arbitrary bytes

A varint ends with its first unmarked byte. Whatever the bytes up to there, they spell a number in
groups of seven bits, of which the low 64 count; the writer picks the spelling whose length `size`
gives. Where no byte ends the varint, a read stops after ten bytes or at the end of the payload. A loop
that puts each group over the ones before it reads the same.
-/

namespace Wirepack
set_option autoImplicit false

namespace Varint

section Size

theorem log2_or_one {n : Nat} (positive : 0 < n) : (n ||| 1).log2 = n.log2 := by
  obtain ⟨low, high⟩ := (Nat.log2_eq_iff (Nat.ne_of_gt positive)).1 rfl
  have larger : n ≤ n ||| 1 := Nat.left_le_or
  have one : 1 < 2 ^ (n.log2 + 1) := Nat.one_lt_two_pow (by omega)
  apply (Nat.log2_eq_iff (by omega)).2
  exact ⟨Nat.le_trans low larger, Nat.or_lt_two_pow high one⟩

theorem log2_div_128 {n : Nat} (large : 128 ≤ n) : n.log2 = (n / 128).log2 + 7 := by
  obtain ⟨low, high⟩ := (Nat.log2_eq_iff (show n / 128 ≠ 0 by omega)).1 rfl
  apply (Nat.log2_eq_iff (by omega)).2
  have lower : 2 ^ ((n / 128).log2 + 7) = 2 ^ (n / 128).log2 * 128 := Nat.pow_add ..
  have upper : 2 ^ ((n / 128).log2 + 7 + 1) = 2 ^ ((n / 128).log2 + 1) * 128 := by
    rw [Nat.add_right_comm, Nat.pow_add]
  omega

theorem le_toNat_of_not_lt {value : UInt64} (large : ¬ value < 0x80) : 128 ≤ value.toNat :=
  Nat.not_lt.1 fun small => large (UInt64.lt_iff_toNat_lt.2 small)

theorem size_of_lt {value : UInt64} (small : value < 0x80) : size value = 1 := by
  have bound : value.toNat < 128 := UInt64.lt_iff_toNat_lt.1 small
  have within : (value.toNat ||| 1) < 2 ^ 7 := Nat.or_lt_two_pow bound (by decide)
  have positive : 1 ≤ value.toNat ||| 1 := Nat.right_le_or
  have narrow : (value.toNat ||| 1).log2 < 7 := (Nat.log2_lt (by omega)).2 within
  simp only [size, bitWidth, UInt64.toNat_or, UInt64.toNat_one]
  omega

theorem size_of_not_lt {value : UInt64} (large : ¬ value < 0x80) : size value = size (value >>> 7) + 1 := by
  have bound := le_toNat_of_not_lt large
  have widths := log2_div_128 bound
  simp only [size, bitWidth, UInt64.toNat_or, UInt64.toNat_one, toNat_shiftRight_seven]
  rw [log2_or_one (by omega), log2_or_one (by omega), widths]
  omega

/-- Induction on the groups that may follow: both sides go down by one with each seven bits. -/
theorem length_groups (more : Nat) {value : UInt64} (bound : value.toNat < Nat.pow 128 (more + 1)) :
    (groups more value).length = size value := by
  induction more generalizing value with
  | zero =>
    have small : value < 0x80 := UInt64.lt_iff_toNat_lt.2 bound
    rw [groups, size_of_lt small]
    rfl
  | succ more ih =>
    rw [groups]
    split
    · next small =>
      rw [size_of_lt small]
      rfl
    · next large =>
      have high : (value >>> 7).toNat < Nat.pow 128 (more + 1) := by
        rw [toNat_shiftRight_seven, Nat.div_lt_iff_lt_mul (by decide)]
        exact bound
      rw [List.length_cons, ih high, size_of_not_lt large]

theorem length_encode (value : UInt64) : (encode value).length = size value :=
  length_groups 9 (Nat.lt_trans value.toNat_lt (by decide))

end Size

/-- The bytes of one varint: all but the last are marked as having a successor. -/
inductive Ended : Bytes → Prop where
  | last {byte : UInt8} (unmarked : byte < 0x80) : Ended [byte]
  | more {byte : UInt8} {rest : Bytes} (marked : ¬ byte < 0x80) (ended : Ended rest) : Ended (byte :: rest)

/-- The number that groups of seven bits spell, the least significant first. -/
def spelled : Bytes → Nat
  | [] => 0
  | byte :: rest => byte.toNat % 128 + 128 * spelled rest

/-- The bytes are a varint for `value`, not necessarily the shortest. Bits past the 64th are dropped. -/
structure Spells (data : Bytes) (value : UInt64) : Prop where
  ended : Ended data
  short : data.length ≤ maxSize
  same : UInt64.ofNat (spelled data) = value

/-- A group and the number that is spelled after it. -/
theorem join_spelled (byte : UInt8) (high : Nat) :
    (byte &&& 0x7F).toUInt64 ||| (UInt64.ofNat high <<< 7) = UInt64.ofNat (byte.toNat % 128 + 128 * high) := by
  have low : byte.toNat &&& 127 = byte.toNat % 128 := Nat.and_two_pow_sub_one_eq_mod byte.toNat 7
  have whole := Nat.two_pow_add_eq_or_of_lt (i := 7) (Nat.mod_lt byte.toNat (show 0 < 2 ^ 7 by decide)) (high % 2 ^ 57)
  have shifted : (UInt64.ofNat high <<< 7).toNat = 2 ^ 7 * (high % 2 ^ 57) := by
    rw [UInt64.toNat_shiftLeft, UInt64.toNat_ofNat', Nat.shiftLeft_eq]
    simp only [UInt64.reduceToNat, Nat.reduceMod, Nat.reducePow]
    omega
  apply UInt64.toNat_inj.1
  rw [UInt64.toNat_or, UInt8.toNat_toUInt64, UInt8.toNat_and, shifted, UInt64.toNat_ofNat']
  simp only [UInt8.reduceToNat]
  rw [low, Nat.or_comm, ← whole]
  omega

/-- A varint that ends soon enough is read whole. Induction on its bytes. -/
theorem reads_ended {data : Bytes} (ended : Ended data) (start : Nat) {left : Nat} (short : data.length ≤ left) :
    Reads (Cursor.varintGroups start left) data (UInt64.ofNat (spelled data)) := by
  induction ended generalizing left with
  | @last byte unmarked =>
    obtain ⟨left, rfl⟩ : ∃ n, left = n + 1 := ⟨left - 1, by simp at short; omega⟩
    have value : UInt64.ofNat (spelled [byte]) = byte.toUInt64 := by
      have bound : byte.toNat < 128 := UInt8.lt_iff_toNat_lt.1 unmarked
      apply UInt64.toNat_inj.1
      rw [UInt64.toNat_ofNat', UInt8.toNat_toUInt64, spelled, spelled]
      omega
    rw [value]
    intro position suffix
    simp [Cursor.varintGroups, Cursor.byte, bind, EStateM.bind, pure, EStateM.pure, unmarked]
  | @more byte rest marked ended ih =>
    obtain ⟨left, rfl⟩ : ∃ n, left = n + 1 := ⟨left - 1, by simp at short; omega⟩
    have others := (ih (Nat.le_of_succ_le_succ short)).map fun high : UInt64 =>
      (byte &&& 0x7F).toUInt64 ||| (high <<< 7)
    rw [join_spelled] at others
    refine (Reads.byte byte).bind ?_
    rw [if_neg marked]
    exact others

theorem Spells.reads {data : Bytes} {value : UInt64} (spells : Spells data value) : Reads Cursor.varint data value := by
  intro position suffix
  have read := reads_ended spells.ended position spells.short position suffix
  rw [spells.same] at read
  exact read

/-- A varint ends within the first `left` bytes, or all of these are marked. -/
theorem ended_or_marked (left : Nat) (data : Bytes) :
    (∃ front back, data = front ++ back ∧ Ended front ∧ front.length ≤ left) ∨
      ∀ byte ∈ data.take left, ¬ byte < 0x80 := by
  induction left generalizing data with
  | zero => simp
  | succ left ih =>
    cases data with
    | nil => simp
    | cons byte rest =>
      by_cases unmarked : byte < 0x80
      · exact .inl ⟨[byte], rest, rfl, .last unmarked, by simp⟩
      · rcases ih rest with ⟨front, back, rfl, ended, short⟩ | marked
        · exact .inl ⟨byte :: front, back, rfl, .more unmarked ended, Nat.succ_le_succ short⟩
        · refine .inr ?_
          rw [List.take_succ_cons, List.forall_mem_cons]
          exact ⟨unmarked, marked⟩

/-- Marked bytes are passed over up to the last that may follow, or up to the end of the payload. -/
theorem varintGroups_of_marked (start left : Nat) {c : Cursor} (marked : ∀ byte ∈ c.rest.take left, ¬ byte < 0x80) :
    Cursor.varintGroups start left c =
      if left ≤ c.remaining then .error (.malformedVarint start) (c.advance left)
      else .error (.underflow 1 0 (c.position + c.remaining)) (c.advance c.remaining) := by
  induction left generalizing c with
  | zero =>
    rw [if_pos (Nat.zero_le _), Cursor.advance_zero]
    rfl
  | succ left ih =>
    obtain ⟨position, _ | ⟨byte, rest⟩⟩ := c
    · simp [Cursor.varintGroups, Cursor.byte, Cursor.remaining, Cursor.advance, bind, EStateM.bind]
    · rw [List.take_succ_cons, List.forall_mem_cons] at marked
      have first : Cursor.varintGroups start (left + 1) ⟨position, byte :: rest⟩ =
          (do return (byte &&& 0x7F).toUInt64 ||| ((← Cursor.varintGroups start left) <<< 7) : Read UInt64)
            ⟨position + 1, rest⟩ := by
        simp [Cursor.varintGroups, Cursor.byte, bind, EStateM.bind, marked.1]
      have others := @ih ⟨position + 1, rest⟩ marked.2
      have further : ∀ count, (⟨position, byte :: rest⟩ : Cursor).advance (count + 1) =
          (⟨position + 1, rest⟩ : Cursor).advance count := by
        intro count
        simp [Cursor.advance, Nat.add_right_comm, Nat.add_assoc]
      have longer : (⟨position, byte :: rest⟩ : Cursor).remaining = (⟨position + 1, rest⟩ : Cursor).remaining + 1 := rfl
      rw [first, longer, further, further]
      by_cases enough : left ≤ (⟨position + 1, rest⟩ : Cursor).remaining
      · rw [if_pos enough] at others
        rw [if_pos (Nat.succ_le_succ enough), Run.bind_eq_error.2 (.inl others)]
      · rw [if_neg enough] at others
        rw [if_neg (fun more => enough (Nat.le_of_succ_le_succ more)), Run.bind_eq_error.2 (.inl others),
          Nat.add_right_comm, Nat.add_assoc]

theorem varint_cases (c : Cursor) :
    (∃ data back value, Spells data value ∧ c.rest = data ++ back ∧
      Cursor.varint c = .ok value ⟨c.position + data.length, back⟩) ∨
    (∀ byte ∈ c.rest.take maxSize, ¬ byte < 0x80) ∧
      Cursor.varint c = if maxSize ≤ c.remaining then .error (.malformedVarint c.position) (c.advance maxSize)
        else .error (.underflow 1 0 (c.position + c.remaining)) (c.advance c.remaining) := by
  rcases ended_or_marked maxSize c.rest with ⟨data, back, split, ended, short⟩ | marked
  · have spells : Spells data (UInt64.ofNat (spelled data)) := ⟨ended, short, rfl⟩
    refine .inl ⟨data, back, _, spells, split, ?_⟩
    rw [← spells.reads c.position back, ← split]
  · exact .inr ⟨marked, varintGroups_of_marked c.position maxSize marked⟩

theorem spells_of_varint {c after : Cursor} {value : UInt64} (run : Cursor.varint c = .ok value after) :
    ∃ data, Spells data value ∧ c.rest = data ++ after.rest ∧ after.position = c.position + data.length := by
  rcases varint_cases c with ⟨data, back, value, spells, split, read⟩ | ⟨-, failed⟩
  · cases read.symm.trans run
    exact ⟨data, spells, split, rfl⟩
  · rw [failed] at run
    split at run <;> cases run

/-- A varint that cannot be read has no end within ten bytes, or the payload ends before. -/
theorem marked_of_varint {c after : Cursor} {fault : Fault} (run : Cursor.varint c = .error fault after) :
    (∀ byte ∈ c.rest.take maxSize, ¬ byte < 0x80) ∧ after = c.advance (min maxSize c.remaining) ∧
      (maxSize ≤ c.remaining ∧ fault = .malformedVarint c.position ∨
        c.remaining < maxSize ∧ fault = .underflow 1 0 (c.position + c.remaining)) := by
  rcases varint_cases c with ⟨data, back, value, spells, split, read⟩ | ⟨marked, failed⟩
  · cases read.symm.trans run
  · refine ⟨marked, ?_⟩
    rw [failed] at run
    split at run
    · next enough =>
      cases run
      exact ⟨by rw [Nat.min_eq_left enough], .inl ⟨enough, rfl⟩⟩
    · next few =>
      cases run
      exact ⟨by rw [Nat.min_eq_right (by omega)], .inr ⟨by omega, rfl⟩⟩

section Accumulating

/-- Reads the groups at these indices up to the last of the varint that started at `start`, and puts each
over the value so far, in its place. -/
def accumulate (start : Nat) (value : UInt64) : List Nat → Read UInt64
  | [] => throw (.malformedVarint start)
  | index :: later => do
    let group ← Cursor.byte
    let value := value ||| ((group &&& 0x7F).toUInt64 <<< UInt64.ofNat (7 * index))
    if group &&& 0x80 = 0 then return value
    accumulate start value later

theorem testBit_seven (byte : UInt8) : byte.toNat.testBit 7 = decide (128 ≤ byte.toNat) := by
  have bound := byte.toNat_lt
  rw [Nat.testBit_eq_decide_div_mod_eq]
  apply decide_eq_decide.2
  omega

theorem and_mark_eq_zero_iff (group : UInt8) : group &&& 0x80 = 0 ↔ group < 0x80 := by
  have mark : (0x80 : UInt8).toNat = 2 ^ 7 := rfl
  have zero : (0 : UInt8).toNat = 0 := rfl
  have high := testBit_seven group
  rw [← UInt8.toNat_inj, UInt8.lt_iff_toNat_lt, UInt8.toNat_and, mark, zero, ← Nat.not_le, ← decide_eq_false_iff_not]
  show _ ↔ decide (128 ≤ group.toNat) = false
  rw [← high]
  constructor
  · intro none
    have bit : (group.toNat &&& 2 ^ 7).testBit 7 = group.toNat.testBit 7 := by
      rw [Nat.testBit_and, Nat.testBit_two_pow_self, Bool.and_true]
    rw [← bit, none, Nat.zero_testBit]
  · intro low
    apply Nat.eq_of_testBit_eq
    intro i
    by_cases seventh : i = 7
    · rw [seventh, Nat.testBit_and, low, Bool.false_and, Nat.zero_testBit]
    · rw [Nat.testBit_and, Nat.testBit_two_pow_of_ne (Ne.symm seventh), Bool.and_false, Nat.zero_testBit]

theorem and_low_of_lt {group : UInt8} (unmarked : group < 0x80) : group &&& 0x7F = group := by
  have bound : group.toNat < 128 := UInt8.lt_iff_toNat_lt.1 unmarked
  apply UInt8.toNat_inj.1
  rw [UInt8.toNat_and]
  exact (Nat.and_two_pow_sub_one_eq_mod group.toNat 7).trans (Nat.mod_eq_of_lt bound)

/-- The groups after one stand seven places above it, as far as the places go. -/
theorem shiftLeft_group (high : UInt64) {index : Nat} (inside : index + 1 < maxSize) :
    (high <<< 7) <<< UInt64.ofNat (7 * index) = high <<< UInt64.ofNat (7 * (index + 1)) := by
  have places : UInt64.ofNat (7 * (index + 1)) = 7 + UInt64.ofNat (7 * index) := by
    rw [Nat.mul_succ, Nat.add_comm, UInt64.ofNat_add]
    rfl
  have ten : maxSize = 10 := rfl
  have size : UInt64.size = 2 ^ 64 := rfl
  have below : (UInt64.ofNat (7 * index)).toNat = 7 * index := UInt64.toNat_ofNat_of_lt' (by omega)
  have total : (7 + UInt64.ofNat (7 * index)).toNat = 7 * (index + 1) := by
    rw [← places, UInt64.toNat_ofNat_of_lt' (by omega)]
  rw [places, UInt64.shiftLeft_add (by decide)]
  · rw [UInt64.lt_iff_toNat_lt, below]
    show 7 * index < 64
    omega
  · rw [UInt64.lt_iff_toNat_lt, total]
    show 7 * (index + 1) < 64
    omega

/-- Induction on the groups that may follow. Above the tenth group there are no places left, but nothing is
read after it. -/
theorem accumulate_eq (start : Nat) (value : UInt64) {index left : Nat} (short : index + left ≤ maxSize) :
    accumulate start value (List.range' index left) =
      (do return value ||| ((← Cursor.varintGroups start left) <<< UInt64.ofNat (7 * index))) := by
  induction left generalizing index value with
  | zero => rfl
  | succ left ih =>
    rw [List.range'_succ, accumulate, Cursor.varintGroups, bind_assoc]
    refine bind_congr fun group => ?_
    by_cases unmarked : group < 0x80
    · rw [if_pos ((and_mark_eq_zero_iff group).2 unmarked), if_pos unmarked, and_low_of_lt unmarked, pure_bind]
    · rw [if_neg fun none => unmarked ((and_mark_eq_zero_iff group).1 none), if_neg unmarked, ih _ (by omega), bind_assoc]
      cases left with
      | zero => rfl
      | succ left =>
        refine bind_congr fun high => ?_
        rw [pure_bind, UInt64.shiftLeft_or, shiftLeft_group high (by omega), UInt64.or_assoc]

/-- A varint is the same whether its groups are put over one another in a loop or each below those after it. -/
theorem varint_eq_accumulate : Cursor.varint = (do accumulate (← Cursor.here) 0 (List.range maxSize)) := by
  refine bind_congr fun start => ?_
  rw [List.range_eq_range', accumulate_eq start 0 (Nat.le_refl _)]
  simp

end Accumulating

end Varint

end Wirepack
