import Mathlib.Algebra.BigOperators.Ring.Finset
import Wirepack.Proofs.Varints

/-!
# The number that a varint stands for

A varint is a number in base 128, its digits from the least significant on. The first unmarked byte
holds the last digit, and where that byte stands decides all: up to ten digits make a number, of which the
low 64 bits are kept; with none in sight the read gives up after ten bytes, or where the payload ends.
-/

namespace Wirepack
set_option autoImplicit false

namespace Varint

/-- The bytes up to the first unmarked one are those of one varint. -/
theorem ended_of_findIdx? {rest : Bytes} {count : Nat} (first : rest.findIdx? (· < 0x80) = some count) :
    Ended (rest.take (count + 1)) := by
  induction rest generalizing count with
  | nil => simp at first
  | cons byte rest ih =>
    rw [List.findIdx?_cons] at first
    split at first
    · next unmarked =>
      cases first
      exact .last (by simpa using unmarked)
    · next marked =>
      obtain ⟨more, later, rfl⟩ := Option.map_eq_some_iff.1 first
      exact .more (by simpa using marked) (ih later)

theorem Ended.length_pos {front : Bytes} (ended : Ended front) : 0 < front.length := by
  cases ended <;> exact Nat.succ_pos _

theorem Ended.findIdx?_append {front : Bytes} (ended : Ended front) (back : Bytes) :
    (front ++ back).findIdx? (· < 0x80) = some (front.length - 1) := by
  induction ended with
  | last unmarked => simp [List.findIdx?_cons, unmarked]
  | @more byte rest marked ended ih =>
    have longer : rest.length - 1 + 1 = rest.length := Nat.sub_add_cancel ended.length_pos
    simp [List.findIdx?_cons, marked, ih, longer]

/-- The groups of a varint are digits in base 128. Induction on their number. -/
theorem spelled_eq_sum {data : Bytes} {position count : Nat} (inside : position + count ≤ data.length) :
    spelled ((data.drop position).take count) =
      ∑ i ∈ Finset.range count, (data.getD (position + i) 0).toNat % 128 * 128 ^ i := by
  induction count generalizing position with
  | zero => simp [spelled]
  | succ count ih =>
    have here : position < data.length := by omega
    have digit : data.getD position 0 = data[position] := by simp [here]
    rw [List.drop_eq_getElem_cons here, List.take_succ_cons, spelled, ih (by omega), Finset.mul_sum,
      Finset.sum_range_succ', Nat.add_comm]
    simp only [Nat.add_zero, digit, Nat.pow_zero, Nat.mul_one]
    congr 1
    apply Finset.sum_congr rfl
    intro i _
    rw [Nat.add_assoc, Nat.add_comm 1 i, Nat.pow_succ, Nat.mul_left_comm, Nat.mul_comm 128]

theorem varint_of_findIdx? {data : Bytes} {position count : Nat} (short : count < 10)
    (first : (data.drop position).findIdx? (· < 0x80) = some count) :
    Cursor.varint ⟨position, data.drop position⟩ =
      .ok (UInt64.ofNat (∑ i ∈ Finset.range (count + 1), (data.getD (position + i) 0).toNat % 128 * 128 ^ i))
        ⟨position + count + 1, data.drop (position + count + 1)⟩ := by
  have inside : count < (data.drop position).length := (List.findIdx?_eq_some_iff_getElem.1 first).1
  rw [List.length_drop] at inside
  have length : ((data.drop position).take (count + 1)).length = count + 1 := by
    rw [List.length_take, List.length_drop]
    omega
  have spells : Spells ((data.drop position).take (count + 1)) _ :=
    ⟨ended_of_findIdx? first, by rw [length]; exact short, rfl⟩
  have read := spells.reads position (data.drop (position + count + 1))
  rw [length, spelled_eq_sum (by omega), ← Nat.add_assoc] at read
  rw [← read, Nat.add_assoc, ← List.drop_drop, List.take_append_drop]

/-- What a varint read gives at any position in any bytes. Where the first unmarked byte is one of the
next ten, it gives the number that these bytes up to it spell in base 128, modulo 2^64, and stops after
them. Where the next ten are all marked it gives up after them, and otherwise at the end of the data. -/
theorem varint_characterised {data : Bytes} {position : Nat} (inside : position ≤ data.length) :
    (∀ count < 10, (data.drop position).findIdx? (· < 0x80) = some count →
      ∃ value, Cursor.varint ⟨position, data.drop position⟩ =
          .ok value ⟨position + count + 1, data.drop (position + count + 1)⟩ ∧
        value.toNat =
          (∑ i ∈ Finset.range (count + 1), (data.getD (position + i) 0).toNat % 128 * 128 ^ i) % 2 ^ 64) ∧
    (position + 10 ≤ data.length ∧ (∀ byte ∈ (data.drop position).take 10, ¬ byte < 0x80) →
      Cursor.varint ⟨position, data.drop position⟩ =
        .error (.malformedVarint position) ⟨position + 10, data.drop (position + 10)⟩) ∧
    ((¬ ∃ count < 10, (data.drop position).findIdx? (· < 0x80) = some count) →
      ¬ (position + 10 ≤ data.length ∧ ∀ byte ∈ (data.drop position).take 10, ¬ byte < 0x80) →
      Cursor.varint ⟨position, data.drop position⟩ = .error (.underflow 1 0 data.length) ⟨data.length, []⟩) := by
  have left : (⟨position, data.drop position⟩ : Cursor).remaining = data.length - position := List.length_drop
  refine ⟨fun count short first => ⟨_, varint_of_findIdx? short first, UInt64.toNat_ofNat'⟩, ?_, ?_⟩
  · rintro ⟨enough, marked⟩
    have ten : 10 ≤ (⟨position, data.drop position⟩ : Cursor).remaining := by omega
    have read : Cursor.varint ⟨position, data.drop position⟩ = _ := varintGroups_of_marked position maxSize marked
    rw [read, maxSize, if_pos ten, Cursor.advance, List.drop_drop]
  · intro none short
    rcases varint_cases ⟨position, data.drop position⟩ with ⟨front, back, value, spells, split, -⟩ | ⟨marked, read⟩
    · have first := spells.ended.findIdx?_append back
      have some := spells.ended.length_pos
      have most : front.length ≤ 10 := spells.short
      rw [← split] at first
      exact absurd ⟨front.length - 1, by omega, first⟩ none
    · have few : ¬ maxSize ≤ (⟨position, data.drop position⟩ : Cursor).remaining := by
        intro enough
        rw [left] at enough
        exact short ⟨by unfold maxSize at enough; omega, marked⟩
      rw [read, if_neg few, left, Cursor.advance]
      simp [inside]

/-- Ten bytes of which the last has six bits too many, and a byte more on either side. -/
def overfull : Bytes := 7 :: List.replicate 9 255 ++ [127, 9]

/-- The varint from the second byte on loses what does not fit. Eleven marked bytes are given up after
ten; without its last two bytes the data ends first. -/
theorem varint_overfull :
    (∃ value, Cursor.varint ⟨1, overfull.drop 1⟩ = .ok value ⟨11, [9]⟩ ∧ value.toNat = 2 ^ 64 - 1) ∧
    Cursor.varint ⟨0, List.replicate 11 255⟩ = .error (.malformedVarint 0) ⟨10, [255]⟩ ∧
    Cursor.varint ⟨1, (overfull.take 10).drop 1⟩ = .error (.underflow 1 0 10) ⟨10, []⟩ := by
  obtain ⟨ends, -, -⟩ := @varint_characterised overfull 1 (by decide)
  obtain ⟨-, endless, -⟩ := @varint_characterised (List.replicate 11 255) 0 (by decide)
  obtain ⟨-, -, cut⟩ := @varint_characterised (overfull.take 10) 1 (by decide)
  obtain ⟨value, read, sum⟩ := ends 9 (by decide) (by decide)
  have unended : ¬ ∃ count < 10, ((overfull.take 10).drop 1).findIdx? (· < 0x80) = some count := by
    simp [overfull, List.findIdx?_cons]
  have short : ¬ 1 + 10 ≤ (overfull.take 10).length := by decide
  refine ⟨⟨value, read, sum.trans ?_⟩, endless ⟨by decide, by simp⟩, cut unended fun enough => short enough.1⟩
  simp [Finset.sum_range_succ, overfull]

end Varint

end Wirepack
