import Wirepack.Family.Codec
import Wirepack.Proofs.Written

/-!
# Values, their types and their bytes

A value that has its declared type carries all that its bytes depend on: `wire` gives them
without a schema, and `requantized` is what becomes of the value on the way. `Typed` says that a
value has a type under given declarations, `Fits` that its lengths can be read back, and `Within`
how many arrays and records stand inside one another.
-/

namespace Wirepack
set_option autoImplicit false

namespace Value

theorem sizeOf_snd_lt_record {fields : List (String × Value)} {field : String × Value}
    (member : field ∈ fields) : sizeOf field.2 < sizeOf (Value.record fields) := by
  have inside := List.sizeOf_lt_of_mem member
  have parts : sizeOf field = 1 + sizeOf field.1 + sizeOf field.2 := by
    cases field
    rfl
  have whole := Value.record.sizeOf_spec fields
  omega

/-- The bytes of a value as it stands. -/
def wire : Value → Bytes
  | .bool v => [v.toUInt8]
  | .int v => Written.int v
  | .long v => Written.long v
  | .float v => Written.long (FixedPoint.quantize32 v)
  | .double v => Written.long (FixedPoint.quantize64 v)
  | .string text => Written.string text
  | .array items => Written.length items.length ++ items.flatMap wire
  | .record fields => fields.flatMap fun field => field.2.wire
decreasing_by
  · decreasing_tactic
  · exact sizeOf_snd_lt_record ‹_›

/-- The value with every float as it comes back from its fixed-point form. -/
def requantized : Value → Value
  | .bool v => .bool v
  | .int v => .int v
  | .long v => .long v
  | .float v => .float (FixedPoint.dequantize32 (FixedPoint.quantize32 v))
  | .double v => .double (FixedPoint.dequantize64 (FixedPoint.quantize64 v))
  | .string text => .string text
  | .array items => .array (items.map requantized)
  | .record fields => .record (fields.map fun field => (field.1, field.2.requantized))
decreasing_by
  · decreasing_tactic
  · exact sizeOf_snd_lt_record ‹_›

/-- No array has more than `limit` elements, and all lengths are those of 64-bit signed integers. -/
def Fits (limit : Nat) : Value → Prop
  | .string text => (Utf8.encode text).length < Written.lengthBound
  | .array items => items.length ≤ limit ∧ items.length < Written.lengthBound ∧ ∀ v ∈ items, v.Fits limit
  | .record fields => ∀ field ∈ fields, field.2.Fits limit
  | _ => True
decreasing_by
  · decreasing_tactic
  · exact sizeOf_snd_lt_record ‹_›

/-- At most `levels` arrays and records stand inside one another. -/
def Within : Nat → Value → Prop
  | 0, .array _ | 0, .record _ => False
  | levels + 1, .array items => ∀ v ∈ items, v.Within levels
  | levels + 1, .record fields => ∀ field ∈ fields, field.2.Within levels
  | _, _ => True

/-- The value has the type, where `lookup` gives the messages that types refer to. A record has
exactly the declared fields, in declared order. -/
inductive Typed (lookup : String → Option Definition) : FieldType → Value → Prop where
  | bool (v : Bool) : Typed lookup .bool (.bool v)
  | int (v : Int32) : Typed lookup .int (.int v)
  | long (v : Int64) : Typed lookup .long (.long v)
  | float (v : Float32) : Typed lookup .float (.float v)
  | double (v : Float) : Typed lookup .double (.double v)
  | string (text : String) : Typed lookup .string (.string text)
  | array {item : FieldType} {items : List Value} (all : ∀ v ∈ items, Typed lookup item v) :
      Typed lookup (.repeated item) (.array items)
  | record {name : String} {d : Definition} {fields : List (String × Value)}
      (found : lookup name = some d) (named : fields.map Prod.fst = d.fields.map Field.name)
      (all : ∀ pair ∈ d.fields.zip fields, Typed lookup pair.1.type pair.2.2) :
      Typed lookup (.message name) (.record fields)

section Fields

variable {α : Type} {declared : List Field} {fields : List (String × α)}

/-- Every declared field has its entry in the same place. -/
theorem Typed.exists_field (named : fields.map Prod.fst = declared.map Field.name) {f : Field}
    (member : f ∈ declared) : ∃ field, (f, field) ∈ declared.zip fields := by
  have same : fields.length = declared.length := by simpa using congrArg List.length named
  obtain ⟨i, inside, rfl⟩ := List.getElem_of_mem member
  exact ⟨fields[i], List.mem_iff_getElem.2 ⟨i, by simp; omega, by simp⟩⟩

theorem Typed.exists_declared (named : fields.map Prod.fst = declared.map Field.name)
    {field : String × α} (member : field ∈ fields) : ∃ f, (f, field) ∈ declared.zip fields := by
  have same : fields.length = declared.length := by simpa using congrArg List.length named
  obtain ⟨i, inside, rfl⟩ := List.getElem_of_mem member
  exact ⟨declared[i], List.mem_iff_getElem.2 ⟨i, by simp; omega, by simp⟩⟩

theorem Typed.name_of_mem_zip (named : fields.map Prod.fst = declared.map Field.name)
    {pair : Field × String × α} (member : pair ∈ declared.zip fields) : pair.2.1 = pair.1.name := by
  obtain ⟨i, inside, rfl⟩ := List.getElem_of_mem member
  have same := congrArg (·[i]?) named
  rw [List.length_zip] at inside
  have small : i < fields.length := by omega
  have declaredSmall : i < declared.length := by omega
  simpa [small, declaredSmall] using same

end Fields

theorem asInt?_int (v : Int32) : (Value.int v).asInt? = some v := by
  have low := v.le_toInt
  have high := v.toInt_lt
  simp [asInt?, asLong?]
  omega

mutual

theorem bytes_put (v : Value) (b : Buffer) : (v.put b).bytes = b.bytes ++ v.wire := by
  cases v with
  | array items => simp [put, wire, bytes_putItems items]
  | record fields => simp [put, wire, bytes_putFields fields]
  | _ => simp [put, wire]

theorem bytes_putItems (items : List Value) (b : Buffer) :
    (putItems items b).bytes = b.bytes ++ items.flatMap wire := by
  cases items with
  | nil => simp [putItems]
  | cons v rest => simp [putItems, bytes_putItems rest, bytes_put v]

theorem bytes_putFields (fields : List (String × Value)) (b : Buffer) :
    (putFields fields b).bytes = b.bytes ++ fields.flatMap fun field => field.2.wire := by
  cases fields with
  | nil => simp [putFields]
  | cons field rest =>
    obtain ⟨name, v⟩ := field
    simp [putFields, bytes_putFields rest, bytes_put v]

end

theorem Within.mono {v : Value} {levels more : Nat} (within : v.Within levels) (le : levels ≤ more) :
    v.Within more := by
  induction levels generalizing v more with
  | zero => cases v <;> first | exact within.elim | simp [Within]
  | succ levels ih =>
    obtain ⟨more, rfl⟩ : ∃ n, more = n + 1 := ⟨more - 1, by omega⟩
    cases v with
    | array items => exact fun v member => ih (within v member) (by omega)
    | record fields => exact fun field member => ih (within field member) (by omega)
    | _ => simp [Within]

theorem within_array {items : List Value} {levels : Nat} (some : 0 < levels)
    (all : ∀ v ∈ items, ∃ below < levels, v.Within below) : (Value.array items).Within levels := by
  obtain ⟨top, rfl⟩ : ∃ n, levels = n + 1 := ⟨levels - 1, by omega⟩
  intro v member
  obtain ⟨below, less, within⟩ := all v member
  exact within.mono (by omega)

theorem within_record {fields : List (String × Value)} {levels : Nat} (some : 0 < levels)
    (all : ∀ field ∈ fields, ∃ below < levels, field.2.Within below) : (Value.record fields).Within levels := by
  obtain ⟨top, rfl⟩ : ∃ n, levels = n + 1 := ⟨levels - 1, by omega⟩
  intro field member
  obtain ⟨below, less, within⟩ := all field member
  exact within.mono (by omega)

end Value

end Wirepack
