import Wirepack.Proofs.BufferRuns
import Wirepack.Proofs.Positional

/-!
# The shortest form of a number

A number can be spelled as a varint in several ways, since groups of zeros may follow its last bit. The
one that is written stops at the last group that counts. Three routes lead to it: a form for one byte, a
form for two, and a loop over the groups that fills a scratch array of ten. They agree with one another
and with the length that is worked out from the leading zeros, and no other spelling is shorter.
-/

namespace Wirepack
set_option autoImplicit false

namespace Varint

/-- The bytes that are written end where a read stops, and spell the number. -/
theorem spells_encode (value : UInt64) : Spells (encode value) value := by
  have read := Reads.varint value 0 []
  rw [List.append_nil] at read
  obtain ⟨data, spells, split, -⟩ := spells_of_varint read
  obtain rfl : encode value = data := by simpa using split
  exact spells

section Loop

/-- Puts the groups of `value` into slots from `next` on, for as long as more than one group is left.
Gives the slots and the number of them that are taken, or nothing if a group finds no slot. -/
def fill (slots : Array UInt8) (next : Nat) (value : UInt64) : Option (Array UInt8 × Nat) :=
  if inside : next < slots.size then
    if small : value < 0x80 then some (slots.set next value.toUInt8, next + 1)
    else fill (slots.set next (marked value)) (next + 1) (value >>> 7)
  else none
termination_by value.toNat
decreasing_by
  have bound := le_toNat_of_not_lt small
  rw [toNat_shiftRight_seven]
  omega

theorem groups_of_lt (more : Nat) {value : UInt64} (small : value < 0x80) : groups more value = [value.toUInt8] := by
  cases more with
  | zero => rfl
  | succ more => exact if_pos small

theorem groups_of_not_lt (more : Nat) {value : UInt64} (large : ¬ value < 0x80) :
    groups (more + 1) value = marked value :: groups more (value >>> 7) :=
  if_neg large

/-- Allowing one group more than a number needs changes nothing. -/
theorem groups_succ {more : Nat} {value : UInt64} (bound : value.toNat < Nat.pow 128 (more + 1)) :
    groups (more + 1) value = groups more value := by
  induction more generalizing value with
  | zero =>
    have small : value < 0x80 := UInt64.lt_iff_toNat_lt.2 bound
    exact groups_of_lt 1 small
  | succ more ih =>
    by_cases small : value < 0x80
    · rw [groups_of_lt _ small, groups_of_lt _ small]
    · have high : (value >>> 7).toNat < Nat.pow 128 (more + 1) := by
        rw [toNat_shiftRight_seven, Nat.div_lt_iff_lt_mul (by decide)]
        exact bound
      rw [groups_of_not_lt _ small, groups_of_not_lt _ small, ih high]

theorem encode_of_not_lt {value : UInt64} (large : ¬ value < 0x80) :
    encode value = marked value :: encode (value >>> 7) := by
  have high : (value >>> 7).toNat < Nat.pow 128 9 := by
    have bound := value.toNat_lt
    rw [toNat_shiftRight_seven, show Nat.pow 128 9 = 9223372036854775808 from rfl]
    omega
  unfold encode
  rw [show maxSize - 1 = 8 + 1 from rfl, groups_of_not_lt 8 large, groups_succ high]

/-- The loop stores the bytes that are written, where they have room. Induction on the number, of which
each step takes off one group. -/
theorem fill_eq_store {slots : Array UInt8} {next : Nat} {value : UInt64} {data : Bytes}
    (same : encode value = data) (room : next + data.length ≤ slots.size) :
    fill slots next value = some (Buffer.store slots next data room, next + data.length) := by
  fun_induction fill slots next value generalizing data with
  | case1 slots next value inside small =>
    obtain rfl : [value.toUInt8] = data := (encode_of_lt small).symm.trans same
    rfl
  | case2 slots next value inside large ih =>
    obtain rfl : marked value :: encode (value >>> 7) = data := (encode_of_not_lt large).symm.trans same
    have others : next + 1 + (encode (value >>> 7)).length ≤ (slots.set next (marked value)).size := by
      rw [List.length_cons] at room
      rw [Array.size_set]
      omega
    rw [ih rfl others, List.length_cons, Nat.add_right_comm, Nat.add_assoc next]
    rfl
  | case3 slots next value outside =>
    have some : 0 < data.length := by
      rw [← same]
      exact (spells_encode value).ended.length_pos
    omega

end Loop

section Form

theorem le_toNat_of_marked {byte : UInt8} (marked : ¬ byte < 0x80) : 128 ≤ byte.toNat :=
  Nat.not_lt.1 fun small => marked (UInt8.lt_iff_toNat_lt.2 small)

/-- The high bit of a byte says whether another byte follows. -/
theorem Ended.testBit {data : Bytes} (ended : Ended data) (i : Fin data.length) :
    data[i].toNat.testBit 7 = decide (i.val + 1 < data.length) := by
  induction ended with
  | @last byte unmarked =>
    have bound : byte.toNat < 128 := UInt8.lt_iff_toNat_lt.1 unmarked
    have only : i.val = 0 := Nat.lt_one_iff.1 i.isLt
    rw [testBit_seven]
    simpa [only] using bound
  | @more byte rest marked ended ih =>
    rcases i with ⟨_ | i, inside⟩
    · have bound := le_toNat_of_marked marked
      rw [testBit_seven]
      simpa [ended.length_pos] using bound
    · have inside' : i < rest.length := Nat.lt_of_succ_lt_succ inside
      simpa using ih ⟨i, inside'⟩

/-- The significant bits are those that are not leading zeros. -/
theorem bitWidth_eq_clz (value : UInt64) : bitWidth value = 64 - (value ||| 1).toBitVec.clz.toNat := by
  have positive : 0 < (value ||| 1).toNat := by
    rw [UInt64.toNat_or]
    exact Nat.lt_of_lt_of_le Nat.one_pos Nat.right_le_or
  have nonzero : (value ||| 1).toBitVec ≠ 0#64 := by
    intro zero
    have none : (value ||| 1).toNat = 0 := congrArg BitVec.toNat zero
    omega
  have few : (value ||| 1).toBitVec.clz.toNat < 64 := BitVec.clz_lt_iff_ne_zero.2 nonzero
  have above := BitVec.toNat_lt_two_pow_sub_clz (x := (value ||| 1).toBitVec)
  have below := BitVec.two_pow_sub_clz_le_toNat_of_ne_zero (by decide) nonzero
  have exact : (value ||| 1).toNat.log2 = 63 - (value ||| 1).toBitVec.clz.toNat := by
    apply (Nat.log2_eq_iff (by omega)).2
    rw [show 63 - (value ||| 1).toBitVec.clz.toNat + 1 = 64 - (value ||| 1).toBitVec.clz.toNat by omega]
    exact ⟨below, above⟩
  unfold bitWidth
  omega

end Form

section Shortest

theorem spelled_lt (data : Bytes) : spelled data < 128 ^ data.length := by
  induction data with
  | nil => exact Nat.one_pos
  | cons byte rest ih =>
    have low := Nat.mod_lt byte.toNat (show 0 < 128 by decide)
    rw [spelled, List.length_cons, Nat.pow_succ]
    omega

/-- A number of at most `count` groups is written in at most `count` bytes. -/
theorem size_le_of_lt {count : Nat} {value : UInt64} (bound : value.toNat < 128 ^ (count + 1)) :
    size value ≤ count + 1 := by
  induction count generalizing value with
  | zero => exact Nat.le_of_eq (size_of_lt (UInt64.lt_iff_toNat_lt.2 bound))
  | succ count ih =>
    by_cases small : value < 0x80
    · rw [size_of_lt small]
      omega
    · have high : (value >>> 7).toNat < 128 ^ (count + 1) := by
        rw [toNat_shiftRight_seven, Nat.div_lt_iff_lt_mul (by decide), ← Nat.pow_succ]
        exact bound
      rw [size_of_not_lt small]
      exact Nat.succ_le_succ (ih high)

/-- Bits past the 64th are dropped, which makes a number smaller at most. -/
theorem Spells.size_le {data : Bytes} {value : UInt64} (spells : Spells data value) : size value ≤ data.length := by
  obtain ⟨count, length⟩ : ∃ count, data.length = count + 1 :=
    Nat.exists_eq_succ_of_ne_zero (Nat.ne_of_gt spells.ended.length_pos)
  have bound := spelled_lt data
  have kept : value.toNat ≤ spelled data := by
    rw [← spells.same, UInt64.toNat_ofNat']
    exact Nat.mod_le ..
  rw [length] at bound ⊢
  exact size_le_of_lt (Nat.lt_of_le_of_lt kept bound)

/-- Fewer than ten groups do not reach the 64th bit, so that none of their bits is dropped. -/
theorem Spells.spelled_eq {data : Bytes} {value : UInt64} (spells : Spells data value) (short : data.length < 10) :
    spelled data = value.toNat := by
  have fits : spelled data < 2 ^ 64 :=
    calc spelled data < 128 ^ data.length := spelled_lt data
      _ ≤ 128 ^ 9 := Nat.pow_le_pow_right (by decide) (by omega)
      _ < 2 ^ 64 := by decide
  rw [← spells.same, UInt64.toNat_ofNat', Nat.mod_eq_of_lt fits]

/-- As many bytes spell a number in one way only. Induction on them: the group of each is a remainder by
128, and its mark says whether it is the last. -/
theorem Ended.eq_of_spelled {data other : Bytes} (ended : Ended data) (ended' : Ended other)
    (length : data.length = other.length) (same : spelled data = spelled other) : data = other := by
  induction ended generalizing other with
  | @last byte unmarked =>
    cases ended' with
    | @last byte' unmarked' =>
      have bound : byte.toNat < 128 := UInt8.lt_iff_toNat_lt.1 unmarked
      have bound' : byte'.toNat < 128 := UInt8.lt_iff_toNat_lt.1 unmarked'
      simp only [spelled] at same
      obtain rfl : byte = byte' := UInt8.toNat_inj.1 (by omega)
      rfl
    | more _ later =>
      have some := later.length_pos
      simp only [List.length_cons, List.length_nil] at length
      omega
  | @more byte rest marked ended ih =>
    cases ended' with
    | last _ =>
      have some := ended.length_pos
      simp only [List.length_cons, List.length_nil] at length
      omega
    | @more byte' rest' marked' later =>
      have bound := le_toNat_of_marked marked
      have bound' := le_toNat_of_marked marked'
      have limit := byte.toNat_lt
      have limit' := byte'.toNat_lt
      simp only [spelled] at same
      obtain rfl : byte = byte' := UInt8.toNat_inj.1 (by omega)
      rw [ih later (Nat.succ.inj length) (by omega)]

/-- Whatever bytes a varint was read from, its number is written in no more of them; and where it takes
just as many, fewer than ten, they are the bytes that are written. What is written is such a spelling
itself, whatever follows it. -/
theorem written_varint_shortest {c after : Cursor} {value : UInt64} (run : Cursor.varint c = .ok value after) :
    (∃ data, c.rest = data ++ after.rest ∧ after.position = c.position + data.length ∧
      size value ≤ data.length ∧ (size value = data.length → data.length < 10 → data = encode value)) ∧
    ∀ position suffix, Cursor.varint ⟨position, encode value ++ suffix⟩ = .ok value ⟨position + size value, suffix⟩ := by
  obtain ⟨data, spells, split, moved⟩ := spells_of_varint run
  refine ⟨⟨data, split, moved, spells.size_le, ?_⟩, ?_⟩
  · intro least short
    have written := spells_encode value
    have length : data.length = (encode value).length := by rw [length_encode, least]
    have same : spelled data = spelled (encode value) := by
      rw [spells.spelled_eq short, written.spelled_eq (length ▸ short)]
    exact spells.ended.eq_of_spelled written.ended length same
  · intro position suffix
    rw [← length_encode]
    exact Reads.varint value position suffix

/-- The number 300 with a group of zeros after it takes a byte too many; without it, its own two. -/
theorem padded_varint_longer :
    (Cursor.varint ⟨0, [0xAC, 0x82, 0x00, 7]⟩ = .ok 300 ⟨3, [7]⟩ ∧ size 300 ≤ 3) ∧
    Cursor.varint ⟨0, [0xAC, 0x02, 7]⟩ = .ok 300 ⟨2, [7]⟩ ∧ [0xAC, 0x02] = encode 300 := by
  have padded : Cursor.varint ⟨0, [0xAC, 0x82, 0x00, 7]⟩ = .ok 300 ⟨3, [7]⟩ := by rfl
  have least : Cursor.varint ⟨0, [0xAC, 0x02, 7]⟩ = .ok 300 ⟨2, [7]⟩ := by rfl
  obtain ⟨⟨data, -, moved, atMost, -⟩, -⟩ := written_varint_shortest padded
  obtain ⟨⟨data', split, -, -, equal⟩, -⟩ := written_varint_shortest least
  obtain rfl : [0xAC, 0x02] = data' := (List.append_left_inj [7]).1 split
  exact ⟨⟨padded, by simp at moved; omega⟩, least, equal (by decide) (by decide)⟩

-- In a tenth byte six bits are dropped, so that ten bytes are no longer told by their number.
example : Cursor.varint ⟨0, List.replicate 9 0xFF ++ [0x03]⟩ = .ok 0xFFFFFFFFFFFFFFFF ⟨10, []⟩ ∧
    encode 0xFFFFFFFFFFFFFFFF = List.replicate 9 0xFF ++ [0x01] := by
  constructor <;> rfl

end Shortest

end Varint

namespace Buffer

/-- A varint is appended as the bytes that the general loop leaves in ten slots, to a buffer of any
length and capacity. Their number is told by the leading zeros of the value: it is one to ten, and room
is made for just so many. All bytes but the last have the high bit set. -/
theorem putVarint_eq_fill (b : Buffer) (value : UInt64) :
    ∃ slots, Varint.fill (Array.replicate 10 0) 0 value = some (slots, Varint.size value) ∧
      slots.toList.take (Varint.size value) = Varint.encode value ∧
      (b.putVarint value).bytes = b.bytes ++ slots.toList.take (Varint.size value) ∧
      (b.putVarint value).length = b.length + Varint.size value ∧
      (b.putVarint value).capacity = (b.reserve (Varint.size value)).capacity ∧
      Varint.size value = (64 - (value ||| 1).toBitVec.clz.toNat + 6) / 7 ∧
      1 ≤ Varint.size value ∧ Varint.size value ≤ 10 ∧
      ∀ i : Fin (Varint.encode value).length,
        (Varint.encode value)[i].toNat.testBit 7 = decide (i.val + 1 < Varint.size value) := by
  have spells := Varint.spells_encode value
  have length := Varint.length_encode value
  have some : 0 < (Varint.encode value).length := spells.ended.length_pos
  have short : (Varint.encode value).length ≤ 10 := spells.short
  have room : 0 + (Varint.encode value).length ≤ (Array.replicate 10 (0 : UInt8)).size := by
    rw [Array.size_replicate]
    omega
  have filled := Varint.fill_eq_store rfl room
  have taken : (Buffer.store (Array.replicate 10 0) 0 (Varint.encode value) room).toList.take (Varint.size value) =
      Varint.encode value := by
    rw [toList_store, List.take_zero, List.nil_append, ← length, List.take_left]
  rw [length, Nat.zero_add] at filled
  refine ⟨_, filled, taken, ?_, ?_, ?_, ?_, by omega, by omega, ?_⟩
  · rw [taken, bytes_putVarint]
  · rw [← length_bytes, bytes_putVarint, List.length_append, length_bytes, length]
  · rw [putVarint_eq_put, ← length]
    exact size_store ..
  · rw [← Varint.bitWidth_eq_clz]
    rfl
  · rw [← length]
    exact spells.ended.testBit

end Buffer

end Wirepack
