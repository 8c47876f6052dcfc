import Wirepack.Family.Codec
import Wirepack.Message.Decode
import Wirepack.Proofs.Progress

/-!
# Reads made of steps

Every read of a payload comes down to a few steps that touch the cursor: the next byte, some bytes
at once, and the position. `Composed` says so of a read, once for each; what a sequence of steps
keeps then holds of every read, by induction on how it is made.

The position goes into faults and nowhere else, but that shows only in the items that the cursor
reads as a whole: numbers, lengths, counts and strings. `Assembled` says that a read is made of such
items, which of its own faults it may add, and by which limit it counts.
-/

namespace Wirepack
set_option autoImplicit false

/-- The read is made of single steps, one after another. -/
inductive Composed : {α : Type} → Read α → Prop where
  | pure {α : Type} (a : α) : Composed (pure a)
  | throw {α : Type} (fault : Fault) : Composed (throw fault : Read α)
  | here : Composed Cursor.here
  | byte : Composed Cursor.byte
  | bytes (count : Nat) : Composed (Cursor.bytes count)
  | bind {α β : Type} {first : Read α} {next : α → Read β} (start : Composed first)
      (goesOn : ∀ a, Composed (next a)) : Composed (first >>= next)

namespace Composed

variable {α β : Type}

theorem map {read : Read α} (f : α → β) (composed : Composed read) : Composed (do return f (← read)) :=
  composed.bind fun a => .pure (f a)

theorem varintGroups (start left : Nat) : Composed (Cursor.varintGroups start left) := by
  induction left with
  | zero => exact .throw _
  | succ left ih =>
    refine byte.bind fun group => ?_
    split
    · exact .pure _
    · exact ih.map fun high : UInt64 => (group &&& 0x7F).toUInt64 ||| (high <<< 7)

theorem varint : Composed Cursor.varint :=
  here.bind fun position => varintGroups position Varint.maxSize

theorem length : Composed Cursor.length := by
  refine here.bind fun position => (varint.map Zigzag.decode64).bind fun value => ?_
  split
  · exact .throw _
  · exact .pure _

theorem count (limit : Nat) : Composed (Cursor.count limit) := by
  refine here.bind fun position => length.bind fun value => ?_
  split
  · exact .throw _
  · exact .pure _

theorem string : Composed Cursor.string := by
  refine length.bind fun size => here.bind fun position => (bytes size).bind fun data => ?_
  split
  · exact .pure _
  · exact .throw _

theorem version (expected : String) : Composed (Cursor.version expected) := by
  refine string.bind fun actual => ?_
  split
  · exact .throw _
  · exact .pure ()

/-- A read made of steps stops in the same payload, where it started or further on. -/
theorem takes {read : Read α} (composed : Composed read) : Takes 0 read := by
  induction composed with
  | pure a => exact .pure a
  | throw fault => exact .throw fault
  | here => exact .here
  | byte => exact Takes.byte.mono (Nat.zero_le 1)
  | bytes count => exact .bytes count
  | bind start goesOn first next => exact first.bind next

end Composed

/-- The read is made of items, one after another. Besides the faults of the items, only those
`refused` arise, and arrays have at most `limit` elements. -/
inductive Assembled (limit : Nat) (refused : Fault → Prop) : {α : Type} → Read α → Prop where
  | pure {α : Type} (a : α) : Assembled limit refused (pure a)
  | refuse {α : Type} {fault : Fault} (allowed : refused fault) : Assembled limit refused (throw fault : Read α)
  | byte : Assembled limit refused Cursor.byte
  | bytes (count : Nat) : Assembled limit refused (Cursor.bytes count)
  | varint : Assembled limit refused Cursor.varint
  | length : Assembled limit refused Cursor.length
  | count : Assembled limit refused (Cursor.count limit)
  | string : Assembled limit refused Cursor.string
  | bind {α β : Type} {first : Read α} {next : α → Read β} (start : Assembled limit refused first)
      (goesOn : ∀ a, Assembled limit refused (next a)) : Assembled limit refused (first >>= next)

namespace Assembled

variable {α β : Type} {limit : Nat} {refused : Fault → Prop}

theorem composed {read : Read α} (assembled : Assembled limit refused read) : Composed read := by
  induction assembled with
  | pure a => exact .pure a
  | refuse _ => exact .throw _
  | byte => exact .byte
  | bytes count => exact .bytes count
  | varint => exact .varint
  | length => exact .length
  | count => exact .count limit
  | string => exact .string
  | bind start goesOn first next => exact first.bind next

theorem weaken {read : Read α} (assembled : Assembled limit refused read) {other : Fault → Prop}
    (more : ∀ fault, refused fault → other fault) : Assembled limit other read := by
  induction assembled with
  | pure a => exact .pure a
  | refuse allowed => exact .refuse (more _ allowed)
  | byte => exact .byte
  | bytes count => exact .bytes count
  | varint => exact .varint
  | length => exact .length
  | count => exact .count
  | string => exact .string
  | bind start goesOn first next => exact first.bind next

theorem map {read : Read α} (f : α → β) (assembled : Assembled limit refused read) :
    Assembled limit refused (do return f (← read)) :=
  assembled.bind fun a => .pure (f a)

theorem times {read : Read α} (assembled : Assembled limit refused read) (count : Nat) :
    Assembled limit refused (Cursor.times read count) := by
  induction count with
  | zero => exact .pure []
  | succ count ih => exact assembled.bind fun first => ih.map (first :: ·)

theorem mapM {read : α → Read β} {xs : List α} (each : ∀ x ∈ xs, Assembled limit refused (read x)) :
    Assembled limit refused (xs.mapM read) := by
  induction xs with
  | nil => exact .pure []
  | cons x xs ih =>
    rw [List.mapM_cons]
    have others := ih fun y later => each y (List.mem_cons_of_mem x later)
    exact (each x List.mem_cons_self).bind fun first => others.map (first :: ·)

theorem int : Assembled limit refused Cursor.int :=
  varint.map fun u : UInt64 => Zigzag.decode32 u.toUInt32

theorem long : Assembled limit refused Cursor.long :=
  varint.map Zigzag.decode64

theorem float : Assembled limit refused Cursor.float :=
  long.map FixedPoint.dequantize32

theorem double : Assembled limit refused Cursor.double :=
  long.map FixedPoint.dequantize64

theorem bool : Assembled limit refused Cursor.bool :=
  byte.map (· != 0)

theorem version (mismatch : ∀ expected actual, refused (.versionMismatch expected actual)) (expected : String) :
    Assembled limit refused (Cursor.version expected) := by
  refine string.bind fun actual => ?_
  split
  · exact .refuse (mismatch _ _)
  · exact .pure ()

end Assembled

/-- The faults by which a schema alone refuses a read: a message is not defined, or too many arrays
and messages contain one another. -/
inductive Schema.Refuses (schema : Schema) : Fault → Prop where
  | undefined {name : String} (unknown : schema.get? name = none) : schema.Refuses (.typeNotFound name)
  | tooDeep (name : String) : schema.Refuses (.tooDeep name)

namespace Message

variable {schema : Schema} {limit : Nat}

theorem require_assembled (schema : Schema) (name : String) :
    Assembled limit schema.Refuses (MonadExcept.ofExcept (schema.require name) : Read Definition) := by
  unfold Schema.require
  split
  · exact .pure _
  · next unknown => exact .refuse (.undefined unknown)

theorem readFields_assembled {read : FieldType → Read Value}
    (each : ∀ type, Assembled limit schema.Refuses (read type)) (d : Definition) :
    Assembled limit schema.Refuses (readFields read d) :=
  (Assembled.mapM fun f _ => (each f.type).map (f.name, ·)).map Keyed.ofList

/-- Induction on the levels left. -/
theorem readValue_assembled (schema : Schema) (limit levels : Nat) (type : FieldType) :
    Assembled limit schema.Refuses (readValue schema limit levels type) := by
  induction levels using Nat.strongRecOn generalizing type with
  | ind levels ih =>
    cases type with
    | int => rw [readValue]; exact Assembled.int.map Value.int
    | long => rw [readValue]; exact Assembled.long.map Value.long
    | float => rw [readValue]; exact Assembled.float.map Value.float
    | double => rw [readValue]; exact Assembled.double.map Value.double
    | bool => rw [readValue]; exact Assembled.bool.map Value.bool
    | string => rw [readValue]; exact Assembled.string.map Value.string
    | repeated item =>
      obtain _ | below := levels
      · exact .refuse (.tooDeep _)
      · rw [readValue]
        have element := ih below (Nat.lt_succ_self below) item
        exact Assembled.count.bind fun count => (element.times count).map Value.array
    | message name =>
      rw [readValue]
      refine (require_assembled schema name).bind fun d => ?_
      obtain _ | below := levels
      · exact .refuse (.tooDeep _)
      · exact (readFields_assembled (ih below (Nat.lt_succ_self below)) d).map Value.record

theorem readBody_assembled (schema : Schema) (limit : Nat) (type : String) :
    Assembled limit schema.Refuses (readBody schema limit type) :=
  (require_assembled schema type).bind fun d =>
    readFields_assembled (readValue_assembled schema limit Schema.maxDepth) d

theorem readBody_composed (schema : Schema) (limit : Nat) (type : String) :
    Composed (readBody schema limit type) :=
  (readBody_assembled schema limit type).composed

theorem read_composed (schema : Schema) (limit : Nat) (type : String) : Composed (read schema limit type) :=
  (@require_assembled limit schema type).composed.bind fun d => (Composed.version d.version).bind fun _ =>
    (readFields_assembled (readValue_assembled schema limit Schema.maxDepth) d).composed

end Message

/-- Induction on the levels left. A family has no bearing on the faults of its items. -/
theorem Family.readField_assembled (family : Family) (limit levels : Nat) (type : FieldType) :
    Assembled limit (fun _ => True) (family.readField limit levels type) := by
  induction levels using Nat.strongRecOn generalizing type with
  | ind levels ih =>
    cases type with
    | int => rw [readField]; exact Assembled.int.map Value.int
    | long => rw [readField]; exact Assembled.long.map Value.long
    | float => rw [readField]; exact Assembled.float.map Value.float
    | double => rw [readField]; exact Assembled.double.map Value.double
    | bool => rw [readField]; exact Assembled.bool.map Value.bool
    | string => rw [readField]; exact Assembled.string.map Value.string
    | repeated item =>
      obtain _ | below := levels
      · exact .refuse trivial
      · rw [readField]
        have element := ih below (Nat.lt_succ_self below) item
        exact Assembled.count.bind fun count => (element.times count).map Value.array
    | message name =>
      obtain _ | below := levels
      · exact .refuse trivial
      · rw [readField]
        split
        · exact .refuse trivial
        · next d _ =>
          have fields : Assembled limit (fun _ => True) (d.fields.mapM fun f => do
              return (f.name, ← family.readField limit below f.type)) :=
            Assembled.mapM fun f _ => (ih below (Nat.lt_succ_self below) f.type).map (f.name, ·)
          exact fields.map Value.record

theorem Family.readField_composed (family : Family) (limit levels : Nat) (type : FieldType) :
    Composed (family.readField limit levels type) :=
  (family.readField_assembled limit levels type).composed

end Wirepack
