import Wirepack.Proofs.Runs
import Wirepack.Wire.Cursor

/-!
# Reads go forward

A read stops where it started or further on in the same payload, whether it succeeds or fails.
`Takes least` says so, together with how many bytes a read takes that succeeds: all numbers,
lengths and counts take one or more, so that the bytes left bound what can still be read.
-/

namespace Wirepack
set_option autoImplicit false

namespace Cursor

@[simp] theorem advance_zero (c : Cursor) : c.advance 0 = c := by
  simp [advance]

@[simp] theorem advance_advance (c : Cursor) (first second : Nat) :
    (c.advance first).advance second = c.advance (first + second) := by
  simp [advance, Nat.add_assoc]

@[simp] theorem remaining_advance (c : Cursor) (count : Nat) : (c.advance count).remaining = c.remaining - count := by
  simp [advance, remaining]

theorem bytes_eq_ok {count : Nat} {c after : Cursor} {data : Bytes} :
    bytes count c = .ok data after ↔ count ≤ c.remaining ∧ data = c.rest.take count ∧ after = c.advance count := by
  unfold bytes
  split
  · next inside => simp [inside, eq_comm]
  · next outside => simp [outside]

theorem bytes_eq_error {count : Nat} {c after : Cursor} {fault : Fault} :
    bytes count c = .error fault after ↔
      c.remaining < count ∧ fault = .underflow count c.remaining c.position ∧ after = c := by
  unfold bytes
  split
  · next inside => simp [Nat.not_lt.2 inside]
  · next outside => simp [Nat.lt_of_not_le outside, eq_comm]

end Cursor

/-- Wherever the read starts, it stops at most all remaining bytes further on; if it succeeds, at
least `least` bytes further on. -/
structure Takes {α : Type} (least : Nat) (read : Read α) : Prop where
  ok : ∀ {c after : Cursor} {a : α}, read c = .ok a after →
    ∃ taken, least ≤ taken ∧ taken ≤ c.remaining ∧ after = c.advance taken
  error : ∀ {c after : Cursor} {fault : Fault}, read c = .error fault after →
    ∃ taken ≤ c.remaining, after = c.advance taken

namespace Takes

variable {α β : Type}

theorem remaining_le {least : Nat} {read : Read α} (takes : Takes least read) {c after : Cursor} {a : α}
    (run : read c = .ok a after) : after.remaining + least ≤ c.remaining := by
  obtain ⟨taken, enough, inside, rfl⟩ := takes.ok run
  rw [Cursor.remaining_advance]
  omega

theorem mono {least fewer : Nat} {read : Read α} (takes : Takes least read) (le : fewer ≤ least) :
    Takes fewer read where
  ok run := by
    obtain ⟨taken, enough, inside, stop⟩ := takes.ok run
    exact ⟨taken, Nat.le_trans le enough, inside, stop⟩
  error := takes.error

theorem pure (a : α) : Takes 0 (pure a) where
  ok run := by
    obtain ⟨-, rfl⟩ := Run.pure_eq_ok.1 run
    exact ⟨0, by simp⟩
  error run := by cases run

theorem throw {least : Nat} (fault : Fault) : Takes least (throw fault : Read α) where
  ok run := by cases run
  error run := by
    cases run
    exact ⟨0, by simp⟩

theorem sequence {least more : Nat} {first : Read α} {next : α → Read β} (takes : Takes least first)
    (goesOn : ∀ a, Takes more (next a)) : Takes (least + more) (first >>= next) where
  ok run := by
    obtain ⟨a, middle, start, rest⟩ := Run.bind_eq_ok.1 run
    obtain ⟨taken, enough, inside, rfl⟩ := takes.ok start
    obtain ⟨further, enoughToo, insideToo, rfl⟩ := (goesOn a).ok rest
    rw [Cursor.remaining_advance] at insideToo
    exact ⟨taken + further, by omega, by omega, Cursor.advance_advance _ _ _⟩
  error run := by
    rcases Run.bind_eq_error.1 run with stopped | ⟨a, middle, start, rest⟩
    · exact takes.error stopped
    · obtain ⟨taken, -, inside, rfl⟩ := takes.ok start
      obtain ⟨further, insideToo, rfl⟩ := (goesOn a).error rest
      rw [Cursor.remaining_advance] at insideToo
      exact ⟨taken + further, by omega, Cursor.advance_advance _ _ _⟩

theorem bind {least : Nat} {first : Read α} {next : α → Read β} (takes : Takes least first)
    (goesOn : ∀ a, Takes 0 (next a)) : Takes least (first >>= next) :=
  takes.sequence goesOn

theorem after {least : Nat} {first : Read α} {next : α → Read β} (takes : Takes 0 first)
    (goesOn : ∀ a, Takes least (next a)) : Takes least (first >>= next) :=
  (takes.sequence goesOn).mono (Nat.le_add_left least 0)

theorem map {least : Nat} {read : Read α} (f : α → β) (takes : Takes least read) :
    Takes least (do return f (← read)) :=
  takes.bind fun a => .pure (f a)

theorem here : Takes 0 Cursor.here where
  ok run := by
    cases run
    exact ⟨0, by simp⟩
  error run := by cases run

theorem byte : Takes 1 Cursor.byte where
  ok {c after a} run := by
    obtain ⟨position, _ | ⟨first, rest⟩⟩ := c
    · cases run
    · cases run
      exact ⟨1, Nat.le_refl 1, by simp [Cursor.remaining], rfl⟩
  error {c after fault} run := by
    obtain ⟨position, _ | ⟨first, rest⟩⟩ := c
    · cases run
      exact ⟨0, by simp⟩
    · cases run

theorem bytes (count : Nat) : Takes 0 (Cursor.bytes count) where
  ok run := by
    obtain ⟨inside, -, rfl⟩ := Cursor.bytes_eq_ok.1 run
    exact ⟨count, Nat.zero_le count, inside, rfl⟩
  error run := by
    obtain ⟨-, -, rfl⟩ := Cursor.bytes_eq_error.1 run
    exact ⟨0, by simp⟩

theorem varintGroups (start left : Nat) : Takes 1 (Cursor.varintGroups start left) := by
  induction left with
  | zero => exact .throw _
  | succ left ih =>
    refine byte.bind fun group => ?_
    split
    · exact .pure _
    · exact (ih.mono (Nat.zero_le 1)).map fun high : UInt64 => (group &&& 0x7F).toUInt64 ||| (high <<< 7)

theorem varint : Takes 1 Cursor.varint :=
  here.after fun position => varintGroups position Varint.maxSize

theorem long : Takes 1 Cursor.long :=
  varint.map Zigzag.decode64

theorem length : Takes 1 Cursor.length := by
  refine here.after fun position => long.bind fun value => ?_
  split
  · exact .throw _
  · exact .pure _

theorem count (limit : Nat) : Takes 1 (Cursor.count limit) := by
  refine here.after fun position => length.bind fun value => ?_
  split
  · exact .throw _
  · exact .pure _

end Takes

end Wirepack
