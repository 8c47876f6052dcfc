import Wirepack.Proofs.BufferRuns
import Wirepack.Proofs.CursorRuns

/-!
# Streams of primitives

Values of different widths stand one after another on the wire with nothing between them. Each get
takes just the bytes that its put appended, so the gets that match a run of puts, in the same order,
find each value where the one before it ended, however large it is and whatever comes after.
-/

namespace Wirepack
set_option autoImplicit false

/-- The answers to calls, each going on where the one before it stopped. -/
def Cursor.Call.readAll (limit : Nat) (calls : List Call) : Read (List (Σ call : Call, call.Answer)) :=
  calls.mapM fun call => do return ⟨call, ← call.read limit⟩

/-- A value that is put on a buffer and read back as it is. The length of a string is one that a
64-bit signed integer can hold, as is every length in memory. -/
inductive Item where
  | varint (value : UInt64)
  | int (value : Int32)
  | long (value : Int64)
  | bool (value : Bool)
  | string (text : String) (small : (Utf8.encode text).length < Written.lengthBound)
  | length (count : Nat) (small : count < Written.lengthBound)
  | bytes (data : Bytes)

namespace Item

/-- The call that puts the item. -/
def put : Item → Buffer.Call
  | .varint value => .varint value
  | .int value => .int value
  | .long value => .long value
  | .bool value => .bool value
  | .string text _ => .string text
  | .length count _ => .length count
  | .bytes data => .bytes data

/-- The call that reads the item back. Only that of raw bytes has to be told their number. -/
def get : Item → Cursor.Call
  | .varint _ => .varint
  | .int _ => .int
  | .long _ => .long
  | .bool _ => .bool
  | .string _ _ => .string
  | .length _ _ => .length
  | .bytes data => .bytes data.length

/-- The value of the item. -/
def value : (item : Item) → item.get.Answer
  | .varint value => value
  | .int value => value
  | .long value => value
  | .bool value => value
  | .string text _ => text
  | .length count _ => count
  | .bytes data => data

/-- What the item's get has to answer. -/
def answer (item : Item) : Σ call : Cursor.Call, call.Answer := ⟨item.get, item.value⟩

/-- The bytes that the item's put appends. -/
def written (item : Item) : Bytes := item.put.onBytes []

theorem bytes_put (item : Item) (b : Buffer) : (item.put.run b).bytes = b.bytes ++ item.written := by
  rw [Buffer.Call.bytes_run, written]
  cases item <;> rfl

/-- Each get takes what its put appended, whatever follows. -/
theorem reads (limit : Nat) (item : Item) : Reads (item.get.read limit) item.written item.value := by
  cases item with
  | varint value => exact .varint value
  | int value => exact .int value
  | long value => exact .long value
  | bool value => exact .bool value
  | string text small => exact .string small
  | length count small => exact .length small
  | bytes data => exact .bytes data

/-- Induction on the items, each of which adds its own bytes. -/
theorem bytes_puts (items : List Item) (b : Buffer) :
    ((items.map put).foldl Buffer.Call.run b).bytes = b.bytes ++ items.flatMap written := by
  induction items generalizing b with
  | nil => simp
  | cons item items ih =>
    rw [List.map_cons, List.foldl_cons, ih, bytes_put, List.flatMap_cons, List.append_assoc]

/-- Induction on the items: the first get stops where the bytes of the others start. -/
theorem readAll_reads (limit : Nat) (items : List Item) :
    Reads (Cursor.Call.readAll limit (items.map get)) (items.flatMap written) (items.map answer) := by
  induction items with
  | nil => exact .pure []
  | cons item items ih =>
    simp only [Cursor.Call.readAll, List.map_cons, List.mapM_cons, List.flatMap_cons]
    have first := (item.reads limit).map fun a => (⟨item.get, a⟩ : Σ call : Cursor.Call, call.Answer)
    exact first.bind (ih.map (item.answer :: ·))

/-- The finished bytes of a fresh buffer on which the items were put. -/
def finished (capacity : Nat) (items : List Item) : Bytes :=
  ((items.map put).foldl Buffer.Call.run (Buffer.withCapacity capacity)).bytes

theorem finished_eq (capacity : Nat) (items : List Item) : finished capacity items = items.flatMap written := by
  rw [finished, bytes_puts, Buffer.bytes_withCapacity, List.nil_append]

/-- For every run of puts on a fresh buffer of any capacity: each put appends bytes of its own, from
which its get reads the value whatever follows them; and the matching gets, from the start of the
finished bytes on, give exactly the values, in order, and stop at the end, or before what follows. -/
theorem stream_round_trip (capacity limit : Nat) (items : List Item) :
    (∀ item ∈ items, (∀ b : Buffer, (item.put.run b).bytes = b.bytes ++ item.written) ∧
      Reads (item.get.read limit) item.written item.value) ∧
    Cursor.Call.readAll limit (items.map get) (.start (finished capacity items)) =
      .ok (items.map answer) ⟨(finished capacity items).length, []⟩ ∧
    ∀ suffix, Cursor.Call.readAll limit (items.map get) (.start (finished capacity items ++ suffix)) =
      .ok (items.map answer) ⟨(finished capacity items).length, suffix⟩ := by
  have read : ∀ suffix, Cursor.Call.readAll limit (items.map get) (.start (finished capacity items ++ suffix)) =
      .ok (items.map answer) ⟨(finished capacity items).length, suffix⟩ := by
    intro suffix
    rw [finished_eq]
    simpa [Cursor.start] using readAll_reads limit items 0 suffix
  refine ⟨fun item _ => ⟨item.bytes_put, item.reads limit⟩, ?_, read⟩
  simpa using read []

example : finished 1 [.bool true, .varint 300, .bytes [255], .string "é" (by decide), .long (-1), .length 64 (by decide)] =
    [1, 172, 2, 255, 4, 195, 169, 1, 128, 1] := by
  decide +kernel

end Item

end Wirepack
