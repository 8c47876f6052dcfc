import Mathlib.Logic.Basic
import Wirepack.Proofs.Places

/-!
# What the encoder accepts

A message conforms to its type if every declared field is there and holds what its type allows, all
the way down. Encoding accepts exactly the messages that conform and whose declared part is not too
deep. Nothing is asked of the schema: it may refer to messages that are not defined, or to themselves,
as long as no value is found there.
-/

namespace Wirepack
set_option autoImplicit false

namespace Value

/-- An integer or a float of either width. -/
def IsNumber : Value → Prop
  | .int _ | .long _ | .float _ | .double _ => True
  | _ => False

/-- The value is one that the type allows, where `lookup` gives the messages that types refer to. A
record may hold more than is declared. -/
inductive Conforms (lookup : String → Option Definition) : FieldType → Value → Prop where
  | int (n : Int32) : Conforms lookup .int (.int n)
  | narrow {n : Int64} (inside : -0x80000000 ≤ n.toInt ∧ n.toInt < 0x80000000) : Conforms lookup .int (.long n)
  | wide (n : Int32) : Conforms lookup .long (.int n)
  | long (n : Int64) : Conforms lookup .long (.long n)
  | float {v : Value} (number : v.IsNumber) : Conforms lookup .float v
  | double {v : Value} (number : v.IsNumber) : Conforms lookup .double v
  | bool (v : Bool) : Conforms lookup .bool (.bool v)
  | string (text : String) : Conforms lookup .string (.string text)
  | array {item : FieldType} {items : List Value} (all : ∀ v ∈ items, Conforms lookup item v) :
      Conforms lookup (.repeated item) (.array items)
  | record {name : String} {d : Definition} {record : Record} (found : lookup name = some d)
      (present : ∀ f ∈ d.fields, (record.get? f.name).isSome)
      (all : ∀ f ∈ d.fields, ∀ v, record.get? f.name = some v → Conforms lookup f.type v) :
      Conforms lookup (.message name) (.record record)

theorem isSome_asInt?_long (n : Int64) :
    (Value.long n).asInt?.isSome ↔ -0x80000000 ≤ n.toInt ∧ n.toInt < 0x80000000 := by
  simp [asInt?, asLong?]

theorem conforms_scalar_iff {type : FieldType} (scalar : type.isScalar) (lookup : String → Option Definition)
    (v : Value) : v.Conforms lookup type ↔ type.takes v = true := by
  constructor
  · intro conforms
    cases conforms with
    | int n => simp [FieldType.takes, asInt?_int]
    | narrow inside => exact (isSome_asInt?_long _).2 inside
    | float number => cases v <;> first | rfl | exact number.elim
    | double number => cases v <;> first | rfl | exact number.elim
    | array _ | record _ _ _ => cases scalar
    | _ => rfl
  · intro takes
    cases type with
    | repeated _ | message _ => cases scalar
    | int =>
      cases v with
      | int n => exact .int n
      | long n => exact .narrow ((isSome_asInt?_long n).1 takes)
      | _ => cases takes
    | long =>
      cases v with
      | int n => exact .wide n
      | long n => exact .long n
      | _ => cases takes
    | float => cases v <;> first | exact .float trivial | cases takes
    | double => cases v <;> first | exact .double trivial | cases takes
    | bool =>
      cases v with
      | bool b => exact .bool b
      | _ => cases takes
    | string =>
      cases v with
      | string text => exact .string text
      | _ => cases takes

theorem conforms_array_iff {lookup : String → Option Definition} {item : FieldType} {items : List Value} :
    (Value.array items).Conforms lookup (.repeated item) ↔ ∀ v ∈ items, v.Conforms lookup item := by
  constructor
  · rintro ⟨⟩
    assumption
  · exact .array

end Value

namespace Message

variable {schema : Schema}

theorem firstFault_flatMap_eq_none {α : Type} {met : α → List Place} {xs : List α} :
    firstFault schema (xs.flatMap met) = none ↔ ∀ x ∈ xs, firstFault schema (met x) = none := by
  simp only [firstFault, List.findSome?_eq_none_iff, List.mem_flatMap]
  constructor
  · intro all x member place inside
    exact all place ⟨x, member, inside⟩
  · rintro all place ⟨x, member, inside⟩
    exact all x member place inside

theorem mismatch?_eq_none {path : Path} {type : FieldType} {v : Value} :
    mismatch? path type v = none ↔ type.takes v = true := by
  simp [mismatch?]

/-- Fields are clear of faults if each is there and is clear of them. -/
theorem recordPlaces_clear_iff {below : Nat} {path : Path}
    (each : ∀ name type v, firstFault schema (places schema (path.field name) type v) = none ↔
      v.Conforms schema.get? type ∧ (declared schema type v).Within below)
    {type : String} {d : Definition} (found : schema.get? type = some d) (record : Record) :
    firstFault schema (recordPlaces schema path type record) = none ↔
      (Value.record record).Conforms schema.get? (.message type) ∧
      ∀ field ∈ declaredRecord schema type record, field.2.Within below := by
  have field : ∀ f, firstFault schema (fieldPlaces schema path d record f) = none ↔
      ∃ v, record.get? f.name = some v ∧ v.Conforms schema.get? f.type ∧ (declared schema f.type v).Within below := by
    intro f
    unfold fieldPlaces
    cases record.get? f.name with
    | none => simp [firstFault, Place.fault?]
    | some v => simp [each]
  rw [recordPlaces_eq found, firstFault_flatMap_eq_none, declaredRecord_eq record found]
  simp only [field, List.mem_filterMap, Option.map_eq_some_iff]
  constructor
  · intro clear
    refine ⟨.record found (fun f member => ?_) (fun f member v present => ?_), ?_⟩
    · obtain ⟨v, present, -, -⟩ := clear f member
      rw [present]
      rfl
    · obtain ⟨w, again, conforms, -⟩ := clear f member
      cases present.symm.trans again
      exact conforms
    · rintro _ ⟨f, member, v, present, rfl⟩
      obtain ⟨w, again, -, within⟩ := clear f member
      cases present.symm.trans again
      exact within
  · rintro ⟨conforms, within⟩ f member
    cases conforms with
    | record known present all =>
      cases found.symm.trans known
      obtain ⟨v, there⟩ := Option.isSome_iff_exists.1 (present f member)
      exact ⟨v, there, all f member v there, within _ ⟨f, member, v, there, rfl⟩⟩

theorem takes_of_clear {path : Path} {type : FieldType} {v : Value}
    (clear : firstFault schema (places schema path type v) = none) : type.takes v = true := by
  obtain ⟨inside, whole⟩ := places_cons schema path type v
  rw [whole, firstFault_cons, Option.or_eq_none_iff] at clear
  have first := clear.1
  cases type with
  | repeated item =>
    rw [Place.fault?] at first
    split at first
    · cases first
    · exact mismatch?_eq_none.1 first
  | message name => exact mismatch?_eq_none.1 (Option.or_eq_none_iff.1 first).1
  | _ => exact mismatch?_eq_none.1 first

/-- The declared part of a scalar is the scalar in its declared width. -/
theorem within_declared_scalar {type : FieldType} (scalar : type.isScalar) {v : Value} (takes : type.takes v = true)
    (levels : Nat) : (declared schema type v).Within levels := by
  cases type with
  | repeated _ | message _ => cases scalar
  | _ =>
    obtain ⟨a, accepted⟩ := Option.isSome_iff_exists.1 takes
    rw [declared, accepted]
    simp [Value.Within]

/-- A value is clear of faults if it conforms and is not too deep. Induction on the levels left. -/
theorem places_clear_iff {levels : Nat} {path : Path} (depth : levels + path.steps.length = Schema.maxDepth + 1)
    (type : FieldType) (v : Value) :
    firstFault schema (places schema path type v) = none ↔
      v.Conforms schema.get? type ∧ (declared schema type v).Within levels := by
  induction levels using Nat.strongRecOn generalizing path type v with
  | ind levels ih =>
    cases type with
    | repeated item =>
      cases v with
      | array items =>
        rw [places_array, firstFault_cons, Place.fault?, declared]
        -- The levels run out where the path gets too long, even if the array is empty.
        obtain _ | below := levels
        · have deep : Schema.maxDepth < path.steps.length := by omega
          simp [deep, Value.Within]
        · have shallow : ¬ Schema.maxDepth < path.steps.length := by omega
          have element : ∀ i v, firstFault schema (places schema (path.index i) item v) = none ↔
              v.Conforms schema.get? item ∧ (declared schema item v).Within below := by
            intro i v
            apply ih below (Nat.lt_succ_self below)
            simp only [Path.index, List.length_append, List.length_singleton]
            omega
          have elements : (∀ pair ∈ items.zipIdx,
              firstFault schema (places schema (path.index pair.2) item pair.1) = none) ↔
                ∀ v ∈ items, v.Conforms schema.get? item ∧ (declared schema item v).Within below := by
            constructor
            · intro clear v member
              obtain ⟨i, place⟩ := List.getElem?_of_mem member
              exact (element i v).1 (clear (v, i) (List.mk_mem_zipIdx_iff_getElem?.2 place))
            · intro all pair member
              exact (element pair.2 pair.1).2 (all pair.1 (List.fst_mem_of_mem_zipIdx member))
          rw [if_neg shallow, Option.or_eq_none_iff, firstFault_flatMap_eq_none, elements, mismatch?_eq_none,
            Value.conforms_array_iff]
          simp only [Value.Within, List.forall_mem_map, ← forall₂_and]
          exact and_iff_right rfl
      | _ =>
        constructor
        · intro clear
          cases takes_of_clear clear
        · rintro ⟨⟨⟩, -⟩
    | message name =>
      cases v with
      | record record =>
        rw [places_record, firstFault_cons, Place.fault?, declared, messageFault?]
        cases found : schema.get? name with
        | none =>
          constructor
          · rintro ⟨⟩
          · rintro ⟨conforms, -⟩
            cases conforms with
            | record known => cases found.symm.trans known
        | some d =>
          obtain _ | below := levels
          · have deep : Schema.maxDepth < path.steps.length := by omega
            simp [deep, Value.Within]
          · have shallow : ¬ Schema.maxDepth < path.steps.length := by omega
            simp only [if_neg shallow]
            rw [Option.or_none, Option.or_eq_none_iff, mismatch?_eq_none]
            refine (and_iff_right rfl).trans (recordPlaces_clear_iff (fun field type v => ?_) found record)
            apply ih below (Nat.lt_succ_self below)
            simp only [Path.field, List.length_append, List.length_singleton]
            omega
      | _ =>
        constructor
        · intro clear
          cases takes_of_clear clear
        · rintro ⟨⟨⟩, -⟩
    | _ =>
      rw [firstFault_scalar rfl, mismatch?_eq_none, Value.conforms_scalar_iff rfl]
      exact ⟨fun takes => ⟨takes, within_declared_scalar rfl takes levels⟩, And.left⟩

/-- Encoding succeeds exactly if the type is defined, the message conforms to it, and no more than 64
arrays and records stand inside one another in its declared part. -/
theorem encode_succeeds_iff_conforms (schema : Schema) (config : Config) (type : String) (record : Record) :
    (∃ payload, encode schema config type record = .ok payload) ↔
      schema.contains type = true ∧ (Value.record record).Conforms schema.get? (.message type) ∧
      ∀ field ∈ declaredRecord schema type record, field.2.Within 64 := by
  rw [← refusal_eq_none, Schema.contains]
  cases found : schema.get? type with
  | none =>
    rw [encode_of_unknown found]
    simp [refusal]
  | some d =>
    rw [refusal_encode found, recordPlaces_clear_iff (fun _ type v => places_clear_iff rfl type v) found]
    exact (and_iff_right rfl).symm

end Message

end Wirepack
