import Wirepack.Proofs.Varints

/-!
# Buffers behave as byte lists

A call on a buffer comes down to making room, storing bytes at the end and giving some up. Taken
apart like this, a store can be out of bounds, and that none ever is depends on the room made just
before it: the short forms of a varint and the general one each ask for their own number of bytes.

What the region held before a rollback is then of no account. The written bytes are those of a plain
list under the same calls, and the capacity follows from the ends that were asked for.
-/

namespace Wirepack.Buffer
set_option autoImplicit false

/-- A call on a buffer. -/
inductive Call where
  | varint (value : UInt64)
  | int (value : Int32)
  | long (value : Int64)
  | float (value : Float32)
  | double (value : Float)
  | bool (value : Bool)
  | length (count : Nat)
  | string (text : String)
  | bytes (data : Bytes)
  | reserve (count : Nat)
  | truncate (count : Nat)
  | clear

/-- The buffer after a call. -/
def Call.run (b : Buffer) : Call → Buffer
  | .varint value => b.putVarint value
  | .int value => b.putInt value
  | .long value => b.putLong value
  | .float value => b.putFloat value
  | .double value => b.putDouble value
  | .bool value => b.putBool value
  | .length count => b.putLength count
  | .string text => b.putString text
  | .bytes data => b.put data
  | .reserve count => b.reserve count
  | .truncate count => b.truncate count
  | .clear => b.clear

/-- The same call on a plain list of bytes. -/
def Call.onBytes (written : Bytes) : Call → Bytes
  | .varint value => written ++ Varint.encode value
  | .int value => written ++ Written.int value
  | .long value => written ++ Written.long value
  | .float value => written ++ Written.long (FixedPoint.quantize32 value)
  | .double value => written ++ Written.long (FixedPoint.quantize64 value)
  | .bool value => written ++ [value.toUInt8]
  | .length count => written ++ Written.length count
  | .string text => written ++ Written.string text
  | .bytes data => written ++ data
  | .reserve _ => written
  | .truncate count => written.take count
  | .clear => []

/-- What is done to the region, one thing at a time. -/
inductive Action where
  | reserve (count : Nat)
  | store (data : Bytes)
  | cut (count : Nat)
  deriving DecidableEq, Repr

namespace Action

/-- The buffer after an action. A store that does not fit the region is out of bounds. -/
def perform (b : Buffer) : Action → Option Buffer
  | .reserve count => some (b.reserve count)
  | .store data =>
    if room : b.length + data.length ≤ b.region.size then
      some ⟨Buffer.store b.region b.length data room, b.length + data.length, by rw [size_store]; exact room⟩
    else none
  | .cut count => some (b.truncate count)

/-- The end, in the region, of the bytes that an action writes or makes room for. -/
def reach (b : Buffer) : Action → Nat
  | .reserve count => b.length + count
  | .store data => b.length + data.length
  | .cut _ => 0

/-- The largest end in a run of actions. -/
def peak (b : Buffer) : List Action → Nat
  | [] => 0
  | action :: rest =>
    max (action.reach b) (match action.perform b with
      | some next => peak next rest
      | none => 0)

/-- The actions of writing a varint, which has forms of its own for one and two bytes. -/
def ofVarint (value : UInt64) : List Action :=
  if value < 0x80 then [.reserve 1, .store [value.toUInt8]]
  else if value < 0x4000 then [.reserve 2, .store [Varint.marked value, (value >>> 7).toUInt8]]
  else [.reserve (Varint.size value), .store (Varint.encode value)]

end Action

/-- The actions of a call. -/
def Call.actions : Call → List Action
  | .varint value => Action.ofVarint value
  | .int value => Action.ofVarint (Zigzag.encode32 value).toUInt64
  | .long value => Action.ofVarint (Zigzag.encode64 value)
  | .float value => Action.ofVarint (Zigzag.encode64 (FixedPoint.quantize32 value))
  | .double value => Action.ofVarint (Zigzag.encode64 (FixedPoint.quantize64 value))
  | .bool value => [.reserve 1, .store [value.toUInt8]]
  | .length count => Action.ofVarint (Zigzag.encode64 (Int64.ofNat count))
  | .string text =>
    Action.ofVarint (Zigzag.encode64 (Int64.ofNat (Utf8.encode text).length)) ++
      [.reserve (Utf8.encode text).length, .store (Utf8.encode text)]
  | .bytes data => [.reserve data.length, .store data]
  | .reserve count => [.reserve count]
  | .truncate count => [.cut count]
  | .clear => [.cut 0]

/-- Every store comes right after room is made for just its bytes. -/
inductive Ready : List Action → Prop where
  | done : Ready []
  | reserve (count : Nat) {rest : List Action} (ready : Ready rest) : Ready (.reserve count :: rest)
  | store (data : Bytes) {rest : List Action} (ready : Ready rest) :
      Ready (.reserve data.length :: .store data :: rest)
  | cut (count : Nat) {rest : List Action} (ready : Ready rest) : Ready (.cut count :: rest)

theorem Ready.append {first second : List Action} (ready : Ready first) (goesOn : Ready second) :
    Ready (first ++ second) := by
  induction ready with
  | done => exact goesOn
  | reserve count _ ih => exact .reserve count ih
  | store data _ ih => exact .store data ih
  | cut count _ ih => exact .cut count ih

/-- The room that each form of a varint asks for is what its bytes take. -/
theorem Action.ofVarint_eq (value : UInt64) :
    ofVarint value = [.reserve (Varint.encode value).length, .store (Varint.encode value)] := by
  unfold ofVarint
  split
  · next small => rw [Varint.encode_of_lt small]; rfl
  · next large =>
    split
    · next small => rw [Varint.encode_of_two_groups large small]; rfl
    · rw [Varint.length_encode]

theorem ready_write (data : Bytes) : Ready [.reserve data.length, .store data] :=
  .store data .done

theorem ready_varint (value : UInt64) : Ready (Action.ofVarint value) := by
  rw [Action.ofVarint_eq]
  exact ready_write _

theorem Call.ready (call : Call) : Ready call.actions := by
  cases call with
  | varint value => exact ready_varint _
  | int value => exact ready_varint _
  | long value => exact ready_varint _
  | float value => exact ready_varint _
  | double value => exact ready_varint _
  | bool value => exact ready_write [value.toUInt8]
  | length count => exact ready_varint _
  | string text => exact (ready_varint _).append (ready_write _)
  | bytes data => exact ready_write data
  | reserve count => exact .reserve count .done
  | truncate count => exact .cut count .done
  | clear => exact .cut 0 .done

section Steps

theorem reserve_of_room {b : Buffer} {count : Nat} (room : b.length + count ≤ b.capacity) : b.reserve count = b :=
  if_pos room

theorem reserve_reserve (b : Buffer) (count : Nat) : (b.reserve count).reserve count = b.reserve count :=
  reserve_of_room (room_reserve b count)

/-- The room made ahead of the general form is the room that its bytes take, so none is made twice. -/
theorem putVarint_eq_put (b : Buffer) (value : UInt64) : b.putVarint value = b.put (Varint.encode value) := by
  unfold putVarint
  split
  · next small => rw [Varint.encode_of_lt small]
  · next large =>
    split
    · next small => rw [Varint.encode_of_two_groups large small]
    · unfold put
      simp only [← Varint.length_encode, reserve_reserve]

theorem performs_write (b : Buffer) (data : Bytes) :
    [Action.reserve data.length, .store data].foldlM Action.perform b = some (b.put data) := by
  have room : (b.reserve data.length).length + data.length ≤ (b.reserve data.length).region.size := room_reserve b _
  simpa [Action.perform, put] using room

theorem performs_varint (b : Buffer) (value : UInt64) :
    (Action.ofVarint value).foldlM Action.perform b = some (b.putVarint value) := by
  rw [Action.ofVarint_eq, performs_write, putVarint_eq_put]

theorem performs_clear (b : Buffer) : [Action.cut 0].foldlM Action.perform b = some b.clear := by
  simp [Action.perform, truncate, clear]

/-- The actions of a call do what the call does, and none is out of bounds. -/
theorem Call.performs (b : Buffer) (call : Call) : call.actions.foldlM Action.perform b = some (call.run b) := by
  cases call with
  | varint value => exact performs_varint b _
  | int value => exact performs_varint b _
  | long value => exact performs_varint b _
  | float value => exact performs_varint b _
  | double value => exact performs_varint b _
  | bool value => exact performs_write b [value.toUInt8]
  | length count => exact performs_varint b _
  | string text =>
    rw [actions, List.foldlM_append, performs_varint]
    exact performs_write _ (Utf8.encode text)
  | bytes data => exact performs_write b data
  | reserve count => rfl
  | truncate count => rfl
  | clear => exact performs_clear b

theorem Call.bytes_run (b : Buffer) (call : Call) : (call.run b).bytes = call.onBytes b.bytes := by
  cases call <;> simp [run, onBytes]

theorem capacity_reserve (b : Buffer) (count : Nat) :
    (b.reserve count).capacity =
      if b.capacity < b.length + count then max (2 * b.capacity) (b.length + count) else b.capacity := by
  unfold reserve
  split
  · next room => rw [if_neg (Nat.not_lt.2 room)]
  · next full =>
    rw [if_pos (Nat.not_le.1 full)]
    simp only [capacity, size_enlarge] at full ⊢
    omega

/-- An action changes the capacity only to reach past it. -/
theorem Action.capacity_perform {b next : Buffer} {action : Action} (performed : action.perform b = some next) :
    next.capacity = if b.capacity < action.reach b then max (2 * b.capacity) (action.reach b) else b.capacity := by
  cases action with
  | reserve count =>
    cases performed
    exact capacity_reserve b count
  | store data =>
    rw [perform] at performed
    split at performed
    · next room =>
      cases performed
      have inside : ¬ b.capacity < reach b (.store data) := Nat.not_lt.2 room
      rw [if_neg inside]
      exact size_store ..
    · cases performed
  | cut count =>
    cases performed
    exact (if_neg (Nat.not_lt_zero _)).symm

end Steps

section Runs

/-- Induction on the calls, each of which performs its own actions. -/
theorem performs_calls (b : Buffer) (calls : List Call) :
    (calls.flatMap Call.actions).foldlM Action.perform b = some (calls.foldl Call.run b) := by
  induction calls generalizing b with
  | nil => rfl
  | cons call calls ih =>
    rw [List.flatMap_cons, List.foldlM_append, call.performs]
    exact ih (call.run b)

theorem ready_calls (calls : List Call) : Ready (calls.flatMap Call.actions) := by
  induction calls with
  | nil => exact .done
  | cons call calls ih => exact call.ready.append ih

theorem bytes_calls (b : Buffer) (calls : List Call) :
    (calls.foldl Call.run b).bytes = calls.foldl Call.onBytes b.bytes := by
  induction calls generalizing b with
  | nil => rfl
  | cons call calls ih => rw [List.foldl_cons, ih, call.bytes_run, List.foldl_cons]

/-- Each growth at most doubles the end that calls for it. Induction on the actions. -/
theorem capacity_le_peak {b after : Buffer} {actions : List Action}
    (performed : actions.foldlM Action.perform b = some after) :
    after.capacity ≤ max b.capacity (2 * Action.peak b actions) := by
  induction actions generalizing b with
  | nil =>
    cases performed
    exact Nat.le_max_left ..
  | cons action rest ih =>
    rw [List.foldlM_cons] at performed
    obtain ⟨next, first, others⟩ := Option.bind_eq_some_iff.1 performed
    have grown := Action.capacity_perform first
    have bounded := ih others
    have highest : Action.peak b (action :: rest) = max (action.reach b) (Action.peak next rest) := by
      rw [Action.peak, first]
    rw [highest]
    split at grown <;> omega

theorem moment_of_run {b after : Buffer} {before rest : List Action} {action : Action}
    (performed : (before ++ action :: rest).foldlM Action.perform b = some after) :
    ∃ here next, before.foldlM Action.perform b = some here ∧ action.perform here = some next := by
  rw [List.foldlM_append] at performed
  obtain ⟨here, reached, others⟩ := Option.bind_eq_some_iff.1 performed
  rw [List.foldlM_cons] at others
  obtain ⟨next, done, -⟩ := Option.bind_eq_some_iff.1 others
  exact ⟨here, next, reached, done⟩

end Runs

/-- For every run of calls on a fresh buffer: each store comes after room was made for just its bytes,
no store is out of bounds, and the written bytes are those of a plain list under the same calls. At
every moment the bytes fit the capacity, which changes only to reach past it, to twice its size or to
the end asked for; and it is never more than the first capacity or twice the largest end asked for. -/
theorem run_refines_bytes (room : Nat) (calls : List Call) :
    Ready (calls.flatMap Call.actions) ∧
    (calls.flatMap Call.actions).foldlM Action.perform (withCapacity room) =
      some (calls.foldl Call.run (withCapacity room)) ∧
    (calls.foldl Call.run (withCapacity room)).bytes = calls.foldl Call.onBytes [] ∧
    (∀ before action rest, calls.flatMap Call.actions = before ++ action :: rest →
      ∃ b next, before.foldlM Action.perform (withCapacity room) = some b ∧ action.perform b = some next ∧
        b.length ≤ b.capacity ∧ next.length ≤ next.capacity ∧ b.capacity ≤ next.capacity ∧
        next.capacity =
          if b.capacity < action.reach b then max (2 * b.capacity) (action.reach b) else b.capacity) ∧
    (calls.foldl Call.run (withCapacity room)).capacity ≤
      max room (2 * Action.peak (withCapacity room) (calls.flatMap Call.actions)) := by
  have performed := performs_calls (withCapacity room) calls
  have fresh : (withCapacity room).capacity = room := by simp [withCapacity, capacity]
  refine ⟨ready_calls calls, performed, ?_, ?_, ?_⟩
  · rw [bytes_calls, bytes_withCapacity]
  · intro before action rest split
    rw [split] at performed
    obtain ⟨b, next, reached, done⟩ := moment_of_run performed
    have law := Action.capacity_perform done
    refine ⟨b, next, reached, done, b.fits, next.fits, ?_, law⟩
    split at law <;> omega
  · have bounded := capacity_le_peak performed
    rwa [fresh] at bounded

/-- A varint of three bytes that ends where the region does, over bytes given up before. -/
def rollback : List Call := [.bytes [7, 8, 9], .truncate 1, .varint 16384, .string "é"]

theorem run_refines_bytes_rollback :
    (rollback.foldl Call.run (withCapacity 4)).bytes = [7, 128, 128, 1, 4, 195, 169] ∧
    ∃ b next, [.reserve 3, .store [7, 8, 9], .cut 1, .reserve 3].foldlM Action.perform (withCapacity 4) = some b ∧
      Action.perform b (.store [128, 128, 1]) = some next ∧ b.capacity ≤ next.capacity ∧
      (rollback.foldl Call.run (withCapacity 4)).capacity ≤ 14 := by
  obtain ⟨-, -, bytes, moments, bounded⟩ := run_refines_bytes 4 rollback
  have split : rollback.flatMap Call.actions = [.reserve 3, .store [7, 8, 9], .cut 1, .reserve 3] ++
      .store [128, 128, 1] :: [.reserve 1, .store [4], .reserve 2, .store [195, 169]] := by
    decide +kernel
  have highest : Action.peak (withCapacity 4) (rollback.flatMap Call.actions) = 7 := by
    decide +kernel
  obtain ⟨b, next, reached, done, -, -, grows, -⟩ := moments _ _ _ split
  rw [highest] at bounded
  exact ⟨by rw [bytes]; decide +kernel, b, next, reached, done, grows, bounded⟩

end Wirepack.Buffer
