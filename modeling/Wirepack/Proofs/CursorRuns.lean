import Wirepack.Proofs.Composed
import Wirepack.Proofs.Varints

/-!
# Cursors stay inside their payloads

A read that fails leaves the cursor where it gave up: inside a number, after a length whose bytes are
missing, or deep in a message. Reading may go on from there with anything. No read steps past the
bytes that are left, so whatever is read in whatever order, the cursor stays inside its payload.

A value depends on the bytes that were taken for it and on nothing else, neither the bytes around
them nor the place: positions go into faults only.
-/

namespace Wirepack
set_option autoImplicit false

namespace Cursor

theorem length_eq (c : Cursor) : length c = match long c with
    | .ok value after =>
      if value < 0 then .error (.invalidLength value c.position) after else .ok value.toInt.toNat after
    | .error fault after => .error fault after := by
  simp only [length, here, bind, EStateM.bind]
  cases long c with
  | ok value after =>
    simp only []
    split <;> rfl
  | error fault after => rfl

theorem count_eq (limit : Nat) (c : Cursor) : count limit c = match length c with
    | .ok value after => if limit < value then .error (.lengthExceeded value limit c.position) after else .ok value after
    | .error fault after => .error fault after := by
  simp only [count, here, bind, EStateM.bind]
  cases length c with
  | ok value after =>
    simp only []
    split <;> rfl
  | error fault after => rfl

theorem string_eq (c : Cursor) : string c = match length c with
    | .ok size middle =>
      match bytes size middle with
      | .ok data after =>
        match Utf8.decode data with
        | .ok text => .ok text after
        | .error defect => .error (.invalidUtf8 middle.position defect) after
      | .error fault after => .error fault after
    | .error fault after => .error fault after := by
  simp only [string, here, bind, EStateM.bind]
  cases length c with
  | ok size middle =>
    simp only []
    cases bytes size middle with
    | ok data after =>
      simp only []
      cases Utf8.decode data <;> rfl
    | error fault after => rfl
  | error fault after => rfl

end Cursor

/-- A value that is read comes from the bytes taken for it: the read gives it wherever these stand. -/
def Local {α : Type} (read : Read α) : Prop :=
  ∀ (c after : Cursor) (a : α), read c = .ok a after →
    ∃ taken, c.rest = taken ++ after.rest ∧ after.position = c.position + taken.length ∧ Reads read taken a

namespace Local

variable {α β : Type}

theorem pure (a : α) : Local (pure a) := by
  intro c after b run
  obtain ⟨rfl, rfl⟩ := Run.pure_eq_ok.1 run
  exact ⟨[], rfl, rfl, .pure a⟩

theorem throw (fault : Fault) : Local (throw fault : Read α) := by
  intro c after a run
  cases run

theorem bind {first : Read α} {next : α → Read β} (start : Local first) (goesOn : ∀ a, Local (next a)) :
    Local (first >>= next) := by
  intro c after b run
  obtain ⟨a, middle, begun, rest⟩ := Run.bind_eq_ok.1 run
  obtain ⟨taken, front, there, reads⟩ := start c middle a begun
  obtain ⟨more, back, further, readsToo⟩ := goesOn a middle after b rest
  refine ⟨taken ++ more, ?_, ?_, reads.bind readsToo⟩
  · rw [front, back, List.append_assoc]
  · rw [further, there, List.length_append, Nat.add_assoc]

theorem byte : Local Cursor.byte := by
  rintro ⟨position, _ | ⟨first, rest⟩⟩ after b run
  · cases run
  · cases run
    exact ⟨[first], rfl, rfl, .byte first⟩

theorem bytes (count : Nat) : Local (Cursor.bytes count) := by
  intro c after data run
  obtain ⟨inside, rfl, rfl⟩ := Cursor.bytes_eq_ok.1 run
  have size : (c.rest.take count).length = count := List.length_take_of_le inside
  have reads := Reads.bytes (c.rest.take count)
  rw [size] at reads
  refine ⟨c.rest.take count, (List.take_append_drop count c.rest).symm, ?_, reads⟩
  rw [size]
  rfl

theorem varint : Local Cursor.varint := by
  intro c after value run
  obtain ⟨data, spells, front, there⟩ := Varint.spells_of_varint run
  exact ⟨data, front, there, spells.reads⟩

/-- What succeeds at one place succeeds at every other, although a failure would name the place. -/
theorem length : Local Cursor.length := by
  intro c after n run
  rw [Cursor.length_eq] at run
  split at run
  · next value _ read =>
    split at run
    · cases run
    · next natural =>
      cases run
      obtain ⟨taken, front, there, reads⟩ := varint.bind (fun u => pure (Zigzag.decode64 u)) c after value read
      refine ⟨taken, front, there, fun position suffix => ?_⟩
      have again : Cursor.long _ = _ := reads position suffix
      rw [Cursor.length_eq, again]
      exact if_neg natural
  · cases run

theorem count (limit : Nat) : Local (Cursor.count limit) := by
  intro c after n run
  rw [Cursor.count_eq] at run
  split at run
  · next read =>
    split at run
    · cases run
    · next allowed =>
      cases run
      obtain ⟨taken, front, there, reads⟩ := length c after n read
      refine ⟨taken, front, there, fun position suffix => ?_⟩
      rw [Cursor.count_eq, reads position suffix]
      exact if_neg allowed
  · cases run

theorem string : Local Cursor.string := by
  intro c after text run
  rw [Cursor.string_eq] at run
  split at run
  · next size middle counted =>
    split at run
    · next data _ read =>
      split at run
      · next decoded =>
        cases run
        obtain ⟨taken, front, there, reads⟩ := length c middle size counted
        obtain ⟨more, back, further, readsToo⟩ := bytes size middle after data read
        refine ⟨taken ++ more, ?_, ?_, fun position suffix => ?_⟩
        · rw [front, back, List.append_assoc]
        · rw [further, there, List.length_append, Nat.add_assoc]
        · rw [Cursor.string_eq, List.append_assoc, reads position (more ++ suffix)]
          simp only []
          rw [readsToo (position + taken.length) suffix]
          simp only [decoded, List.length_append, Nat.add_assoc]
      · cases run
    · cases run
  · cases run

end Local

/-- Induction on the items. -/
theorem Assembled.local {α : Type} {limit : Nat} {refused : Fault → Prop} {read : Read α}
    (assembled : Assembled limit refused read) : Local read := by
  induction assembled with
  | pure a => exact .pure a
  | refuse _ => exact .throw _
  | byte => exact .byte
  | bytes count => exact .bytes count
  | varint => exact .varint
  | length => exact .length
  | count => exact .count limit
  | string => exact .string
  | bind start goesOn first next => exact first.bind next

namespace Cursor

/-- The cursor stands at a place in the payload, or at its end. -/
structure Inside (data : Bytes) (c : Cursor) : Prop where
  position_le : c.position ≤ data.length
  rest_eq : c.rest = data.drop c.position

namespace Inside

variable {data : Bytes} {c : Cursor}

theorem start (data : Bytes) : Inside data (.start data) :=
  ⟨Nat.zero_le _, rfl⟩

theorem position_add_remaining (inside : Inside data c) : c.position + c.remaining = data.length := by
  have there := inside.position_le
  rw [remaining, inside.rest_eq, List.length_drop]
  omega

theorem advance (inside : Inside data c) {count : Nat} (enough : count ≤ c.remaining) :
    Inside data (c.advance count) := by
  have left := inside.position_add_remaining
  constructor
  · show c.position + count ≤ data.length
    omega
  · show c.rest.drop count = data.drop (c.position + count)
    rw [inside.rest_eq, List.drop_drop]

/-- The bytes between two places. -/
theorem extract_eq (inside : Inside data c) (count : Nat) :
    data.extract c.position (c.position + count) = c.rest.take count := by
  rw [List.extract_eq_take_drop, ← inside.rest_eq, Nat.add_sub_cancel_left]

theorem extract_taken (inside : Inside data c) {taken rest : Bytes} (front : c.rest = taken ++ rest) :
    data.extract c.position (c.position + taken.length) = taken := by
  rw [inside.extract_eq, front, List.take_left]

end Inside

/-- Where a read stopped, with a value or with a fault. -/
def stopped {α : Type} : EStateM.Result Fault Cursor α → Cursor
  | .ok _ after => after
  | .error _ after => after

theorem Inside.stopped {α : Type} {read : Read α} {data : Bytes} {c : Cursor} (inside : Inside data c)
    (takes : Takes 0 read) : Inside data (stopped (read c)) ∧ c.position ≤ (Cursor.stopped (read c)).position := by
  cases run : read c with
  | ok a after =>
    obtain ⟨taken, -, enough, rfl⟩ := takes.ok run
    exact ⟨inside.advance enough, Nat.le_add_right ..⟩
  | error fault after =>
    obtain ⟨taken, enough, rfl⟩ := takes.error run
    exact ⟨inside.advance enough, Nat.le_add_right ..⟩

theorem Inside.after {α : Type} {read : Read α} {data : Bytes} {c after : Cursor} {a : α} (inside : Inside data c)
    (takes : Takes 0 read) (run : read c = .ok a after) : Inside data after := by
  have there := (inside.stopped takes).1
  rwa [run] at there

/-- Every byte that the read looks at, from where it starts to where it stops, is one of the payload. -/
inductive InRange (data : Bytes) : {α : Type} → Read α → Cursor → Prop where
  | pure {α : Type} (a : α) (c : Cursor) : InRange data (pure a) c
  | throw {α : Type} (fault : Fault) (c : Cursor) : InRange data (throw fault : Read α) c
  | here (c : Cursor) : InRange data here c
  | byte {c : Cursor} (index : c.atEnd = false → c.position < data.length ∧ data[c.position]? = c.rest.head?) :
      InRange data byte c
  | bytes {c : Cursor} {count : Nat} (slice : count ≤ c.remaining → c.position + count ≤ data.length ∧
      data.extract c.position (c.position + count) = c.rest.take count) : InRange data (bytes count) c
  | bind {α β : Type} {first : Read α} {next : α → Read β} {c : Cursor} (start : InRange data first c)
      (goesOn : ∀ a middle, first c = .ok a middle → InRange data (next a) middle) : InRange data (first >>= next) c

theorem Inside.byte_inRange {data : Bytes} {c : Cursor} (inside : Inside data c) : InRange data byte c := by
  refine .byte fun more => ?_
  have left := inside.position_add_remaining
  have some : c.remaining ≠ 0 := by
    intro none
    rw [atEnd, List.isEmpty_eq_false_iff] at more
    exact more (List.length_eq_zero_iff.1 none)
  refine ⟨by omega, ?_⟩
  rw [inside.rest_eq, List.head?_drop]

theorem Inside.bytes_inRange {data : Bytes} {c : Cursor} (inside : Inside data c) (count : Nat) :
    InRange data (bytes count) c := by
  refine .bytes fun enough => ?_
  have left := inside.position_add_remaining
  exact ⟨by omega, inside.extract_eq count⟩

/-- Each step starts inside the payload, where the one before it stopped. -/
theorem Inside.inRange {α : Type} {data : Bytes} {read : Read α} (composed : Composed read) {c : Cursor}
    (inside : Inside data c) : InRange data read c := by
  induction composed generalizing c with
  | pure a => exact .pure a c
  | throw fault => exact .throw fault c
  | here => exact .here c
  | byte => exact inside.byte_inRange
  | bytes count => exact inside.bytes_inRange count
  | bind start goesOn first next =>
    exact .bind (first inside) fun a middle run => next a (inside.after start.takes run)

/-- A read that a cursor can be asked for. -/
inductive Call where
  | varint
  | int
  | long
  | float
  | double
  | bool
  | length
  | count
  | string
  | bytes (size : Nat)
  | version (expected : String)
  | body (schema : Schema) (type : String)

namespace Call

/-- What a call gives if it succeeds. -/
def Answer : Call → Type
  | .varint => UInt64
  | .int => Int32
  | .long => Int64
  | .float => Float32
  | .double => Float
  | .bool => Bool
  | .length | .count => Nat
  | .string => String
  | .bytes _ => Bytes
  | .version _ => Unit
  | .body _ _ => Record

/-- The read that a call stands for, with a limit on the elements of an array. -/
def read (limit : Nat) : (call : Call) → Read call.Answer
  | .varint => Cursor.varint
  | .int => Cursor.int
  | .long => Cursor.long
  | .float => Cursor.float
  | .double => Cursor.double
  | .bool => Cursor.bool
  | .length => Cursor.length
  | .count => Cursor.count limit
  | .string => Cursor.string
  | .bytes size => Cursor.bytes size
  | .version expected => Cursor.version expected
  | .body schema type => Message.readBody schema limit type

/-- The cursor after a call, from which the next one goes on. -/
def stop (limit : Nat) (c : Cursor) (call : Call) : Cursor := stopped (call.read limit c)

theorem assembled (limit : Nat) (call : Call) : Assembled limit (fun _ => True) (call.read limit) := by
  cases call with
  | varint => exact .varint
  | int => exact .int
  | long => exact .long
  | float => exact .float
  | double => exact .double
  | bool => exact .bool
  | length => exact .length
  | count => exact .count
  | string => exact .string
  | bytes size => exact .bytes size
  | version expected => exact .version (fun _ _ => trivial) expected
  | body schema type => exact (Message.readBody_assembled schema limit type).weaken fun _ _ => trivial

theorem stop_inside {data : Bytes} {c : Cursor} (limit : Nat) (inside : Inside data c) (call : Call) :
    Inside data (call.stop limit c) ∧ c.position ≤ (call.stop limit c).position :=
  inside.stopped (call.assembled limit).composed.takes

/-- Induction on the calls: each starts where the one before it stopped. -/
theorem run_inside {data : Bytes} {c : Cursor} (limit : Nat) (inside : Inside data c) (calls : List Call) :
    Inside data (calls.foldl (stop limit) c) := by
  induction calls generalizing c with
  | nil => exact inside
  | cons call calls ih => exact ih (stop_inside limit inside call).1

end Call

/-- For every run of calls on a payload, each going on where the one before it stopped, with a value or
a fault: the cursor stays inside the payload, no call moves it back, and none looks at a byte outside.
A value that a call gives is that of the bytes between the two places, wherever they stand. Bytes that
cannot be read are not taken, and a varint that cannot be read takes ten bytes or all that are left. -/
theorem run_safe {data : Bytes} {limit : Nat} {calls : List Call} {c : Cursor}
    (run : calls.foldl (Call.stop limit) (.start data) = c) :
    c.position ≤ data.length ∧ c.position + c.remaining = data.length ∧ (c.atEnd = true ↔ c.remaining = 0) ∧
    (∀ call : Call, c.position ≤ (call.stop limit c).position ∧ (call.stop limit c).position ≤ data.length ∧
      InRange data (call.read limit) c ∧
      ∀ answer after, call.read limit c = .ok answer after →
        Reads (call.read limit) (data.extract c.position after.position) answer) ∧
    (∀ size fault after, bytes size c = .error fault after → after.position = c.position) ∧
    ∀ fault after, varint c = .error fault after → after.position = c.position + min 10 c.remaining := by
  have inside : Inside data c := run ▸ Call.run_inside limit (.start data) calls
  refine ⟨inside.position_le, inside.position_add_remaining, ?_, ?_, ?_, ?_⟩
  · rw [atEnd, remaining, List.isEmpty_iff, List.length_eq_zero_iff]
  · intro call
    have stop := Call.stop_inside limit inside call
    have assembled := call.assembled limit
    refine ⟨stop.2, stop.1.position_le, inside.inRange assembled.composed, ?_⟩
    intro answer after read
    obtain ⟨taken, front, further, reads⟩ := assembled.local c after answer read
    rwa [further, inside.extract_taken front]
  · intro size fault after failed
    obtain ⟨-, -, rfl⟩ := bytes_eq_error.1 failed
    rfl
  · intro fault after failed
    obtain ⟨-, rfl, -⟩ := Varint.marked_of_varint failed
    rfl

/-- A message whose second field is of a type that is not defined. -/
def dangling : Schema := ⟨"1", [⟨"Node", "n1", [⟨"id", .int⟩, ⟨"next", .message "Gone"⟩]⟩]⟩

/-- The message fails after its first field and the bytes are too few; then there is a string, and a
varint that does not end. -/
theorem run_safe_dangling :
    [Call.body dangling "Node", .bytes 9].foldl (Call.stop 0) (.start [2, 4, 104, 105, 255, 128]) =
      ⟨1, [4, 104, 105, 255, 128]⟩ ∧
    Reads (Call.read 0 .string) [4, 104, 105] "hi" ∧
    ∀ fault after, varint ⟨4, [255, 128]⟩ = .error fault after → after.position = 6 := by
  have first : [Call.body dangling "Node", .bytes 9].foldl (Call.stop 0) (.start [2, 4, 104, 105, 255, 128]) =
      ⟨1, [4, 104, 105, 255, 128]⟩ := rfl
  have second : [Call.body dangling "Node", .bytes 9, .string].foldl (Call.stop 0)
      (.start [2, 4, 104, 105, 255, 128]) = ⟨4, [255, 128]⟩ := rfl
  obtain ⟨-, -, -, calls, -, -⟩ := run_safe first
  obtain ⟨-, -, -, -, -, failing⟩ := run_safe second
  exact ⟨first, (calls .string).2.2.2 "hi" ⟨4, [255, 128]⟩ rfl, failing⟩

end Cursor

end Wirepack
