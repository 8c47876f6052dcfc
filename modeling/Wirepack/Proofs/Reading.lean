import Wirepack.Proofs.Written
import Wirepack.Proofs.Zigzag
import Wirepack.Wire.Cursor

/-!
# Reading back what was written

`Reads read data value` says that a read takes exactly `data`, whatever bytes follow, and gives
`value`. Nothing on the wire marks where a value ends, so this is what makes values that stand
one after another readable. It holds of every primitive and passes to reads in sequence.
-/

namespace Wirepack
set_option autoImplicit false

namespace Varint

theorem toUInt8_lt {value : UInt64} (small : value < 0x80) : value.toUInt8 < 0x80 := by
  rw [UInt64.lt_iff_toNat_lt] at small
  rw [UInt8.lt_iff_toNat_lt]
  simp at small ⊢
  omega

theorem toUInt64_toUInt8 {value : UInt64} (small : value < 0x80) : value.toUInt8.toUInt64 = value := by
  rw [UInt64.lt_iff_toNat_lt] at small
  apply UInt64.toNat_inj.1
  simp at small ⊢
  omega

theorem toNat_marked (value : UInt64) : (marked value).toNat = value.toNat % 128 + 128 := by
  have low : value.toUInt8.toNat &&& 127 = value.toNat % 128 := by
    rw [show 127 = 2 ^ 7 - 1 from rfl, Nat.and_two_pow_sub_one_eq_mod]
    simp
  have high := Nat.two_pow_add_eq_or_of_lt (i := 7) (b := value.toNat % 128) (by omega) 1
  simp [marked, UInt8.toNat_or, UInt8.toNat_and] at low high ⊢
  rw [low, Nat.or_comm, ← high, Nat.add_comm]

theorem not_marked_lt (value : UInt64) : ¬ marked value < 0x80 := by
  rw [UInt8.lt_iff_toNat_lt, toNat_marked]
  simp

/-- The group of a marked byte and the bits above it make up the number again. -/
theorem join_marked (value : UInt64) :
    (marked value &&& 0x7F).toUInt64 ||| ((value >>> 7) <<< 7) = value := by
  have low : (marked value).toNat &&& 127 = value.toNat % 128 := by
    rw [show 127 = 2 ^ 7 - 1 from rfl, Nat.and_two_pow_sub_one_eq_mod, toNat_marked]
    omega
  have whole : 128 * (value.toNat / 128) + value.toNat % 128 =
      128 * (value.toNat / 128) ||| value.toNat % 128 :=
    Nat.two_pow_add_eq_or_of_lt (i := 7) (by omega) _
  have bound := value.toNat_lt
  have fits : value.toNat / 128 * 128 < 18446744073709551616 := by omega
  apply UInt64.toNat_inj.1
  simp [UInt64.toNat_shiftLeft, Nat.shiftLeft_eq, Nat.shiftRight_eq_div_pow, low]
  rw [Nat.mod_eq_of_lt fits, Nat.or_comm, Nat.mul_comm, ← whole]
  omega

end Varint

theorem Utf8.decode_encode (text : String) : Utf8.decode (Utf8.encode text) = .ok text := by
  have found : Utf8.decode? (Utf8.encode text) = some text := by
    have valid : ByteArray.IsValidUTF8 ⟨(Utf8.encode text).toArray⟩ := by
      simpa [Utf8.encode] using text.isValidUTF8
    rw [Utf8.decode?, String.fromUTF8?, dif_pos valid]
    simp [Utf8.encode, String.fromUTF8]
  rw [Utf8.decode, found]

/-- Whatever follows `data`, the read takes exactly `data` and gives `value`. -/
def Reads {α : Type} (read : Read α) (data : Bytes) (value : α) : Prop :=
  ∀ position suffix, read ⟨position, data ++ suffix⟩ = .ok value ⟨position + data.length, suffix⟩

namespace Reads

section Sequences

variable {α β : Type}

theorem pure (value : α) : Reads (pure value) [] value := by
  intro position suffix
  rfl

theorem bind {first : Read α} {next : α → Read β} {data more : Bytes} {a : α} {b : β}
    (reads : Reads first data a) (goesOn : Reads (next a) more b) :
    Reads (first >>= next) (data ++ more) b := by
  intro position suffix
  have rest := goesOn (position + data.length) suffix
  simp only [Bind.bind, EStateM.bind, List.append_assoc, reads position (more ++ suffix)]
  rw [rest, List.length_append, Nat.add_assoc]

theorem map {read : Read α} {data : Bytes} {a : α} (f : α → β) (reads : Reads read data a) :
    Reads (do return f (← read)) data (f a) := by
  have whole : Reads (read >>= fun x => Pure.pure (f x)) (data ++ []) (f a) :=
    reads.bind (Reads.pure (f a))
  rwa [List.append_nil] at whole

/-- Values that `write` gives the bytes of, read one after another. -/
theorem times {read : Read β} {write : α → Bytes} {value : α → β} {xs : List α}
    (reads : ∀ x ∈ xs, Reads read (write x) (value x)) :
    Reads (Cursor.times read xs.length) (xs.flatMap write) (xs.map value) := by
  induction xs with
  | nil => exact Reads.pure []
  | cons x xs ih =>
    have first := reads x List.mem_cons_self
    have others := ih fun y member => reads y (List.mem_cons_of_mem x member)
    exact first.bind (others.map (value x :: ·))

end Sequences

theorem byte (b : UInt8) : Reads Cursor.byte [b] b := by
  intro position suffix
  rfl

theorem bytes (data : Bytes) : Reads (Cursor.bytes data.length) data data := by
  intro position suffix
  simp [Cursor.bytes, Cursor.remaining, Cursor.advance]

theorem lastGroup (start left : Nat) {value : UInt64} (small : value < 0x80) :
    Reads (Cursor.varintGroups start (left + 1)) [value.toUInt8] value := by
  intro position suffix
  simp [Cursor.varintGroups, Cursor.byte, Bind.bind, EStateM.bind, Pure.pure, EStateM.pure,
    Varint.toUInt8_lt small, Varint.toUInt64_toUInt8 small]

/-- Induction on the groups that may follow, each of which takes seven bits off the number. -/
theorem varintGroups (start more : Nat) {value : UInt64} (bound : value.toNat < Nat.pow 128 (more + 1)) :
    Reads (Cursor.varintGroups start (more + 1)) (Varint.groups more value) value := by
  induction more generalizing value with
  | zero =>
    have small : value < 0x80 := by
      rw [UInt64.lt_iff_toNat_lt]
      exact bound
    exact lastGroup start 0 small
  | succ more ih =>
    rw [Varint.groups]
    split
    · next small => exact lastGroup start (more + 1) small
    · have high : (value >>> 7).toNat < Nat.pow 128 (more + 1) := by
        rw [Varint.toNat_shiftRight_seven, Nat.div_lt_iff_lt_mul (by decide)]
        exact bound
      have rest := (ih high).map fun upper : UInt64 =>
        (Varint.marked value &&& 0x7F).toUInt64 ||| (upper <<< 7)
      rw [Varint.join_marked] at rest
      refine (byte (Varint.marked value)).bind ?_
      simpa [Varint.not_marked_lt] using rest

theorem varint (value : UInt64) : Reads Cursor.varint (Varint.encode value) value := by
  intro position suffix
  have bound : value.toNat < Nat.pow 128 10 := Nat.lt_trans value.toNat_lt (by decide)
  exact varintGroups position 9 bound position suffix

theorem int (value : Int32) : Reads Cursor.int (Written.int value) value := by
  have read := (varint (Zigzag.encode32 value).toUInt64).map fun u => Zigzag.decode32 u.toUInt32
  rwa [UInt32.toUInt32_toUInt64, Zigzag.decode32_encode32] at read

theorem long (value : Int64) : Reads Cursor.long (Written.long value) value := by
  have read := (varint (Zigzag.encode64 value)).map Zigzag.decode64
  rwa [Zigzag.decode64_encode64] at read

theorem float (value : Float32) : Reads Cursor.float (Written.long (FixedPoint.quantize32 value))
    (FixedPoint.dequantize32 (FixedPoint.quantize32 value)) :=
  (long (FixedPoint.quantize32 value)).map FixedPoint.dequantize32

theorem double (value : Float) : Reads Cursor.double (Written.long (FixedPoint.quantize64 value))
    (FixedPoint.dequantize64 (FixedPoint.quantize64 value)) :=
  (long (FixedPoint.quantize64 value)).map FixedPoint.dequantize64

theorem bool (value : Bool) : Reads Cursor.bool [value.toUInt8] value := by
  have read := (byte value.toUInt8).map (· != 0)
  cases value <;> exact read

theorem length {count : Nat} (small : count < Written.lengthBound) :
    Reads Cursor.length (Written.length count) count := by
  intro position suffix
  have read := long (Int64.ofNat count) position suffix
  have same : (Int64.ofNat count).toInt = count := Int64.toInt_ofNat_of_lt small
  have natural : ¬ Int64.ofNat count < 0 := by
    rw [Int64.lt_iff_toInt_lt, same]
    simp
  simp [Cursor.length, Cursor.here, Bind.bind, EStateM.bind, Pure.pure, EStateM.pure,
    Written.length, read, natural, same]

theorem count {count limit : Nat} (small : count < Written.lengthBound) (allowed : count ≤ limit) :
    Reads (Cursor.count limit) (Written.length count) count := by
  intro position suffix
  simp [Cursor.count, Cursor.here, Bind.bind, EStateM.bind, Pure.pure, EStateM.pure,
    length small position suffix, Nat.not_lt.2 allowed]

theorem string {text : String} (small : (Utf8.encode text).length < Written.lengthBound) :
    Reads Cursor.string (Written.string text) text := by
  refine (length small).bind ?_
  intro position suffix
  simp [Cursor.here, Bind.bind, EStateM.bind, Pure.pure, EStateM.pure,
    bytes (Utf8.encode text) position suffix, Utf8.decode_encode]

theorem version {tag : String} (small : (Utf8.encode tag).length < Written.lengthBound) :
    Reads (Cursor.version tag) (Written.string tag) () := by
  intro position suffix
  simp [Cursor.version, Bind.bind, EStateM.bind, Pure.pure, EStateM.pure, string small position suffix]

end Reads

end Wirepack
