import Mathlib
import Wirepack.Proofs.Appending

/-!
# Only declared content is written

Two values are alike under a type if an encoder that reads them by that type has no cause to tell them
apart: they are equal, or the same integer in either width where an integer is declared, or hold alike
elements, or alike values in each declared field. What else a record holds, and in what order, does not
count. Encoding gives the same bytes for alike messages, or the same fault.

Equal floats need not be the same, as there are two zeros. Each is written as zero.
-/

namespace Wirepack
set_option autoImplicit false

namespace FixedPoint

-- What equal floats have in common is stated in a part of the library that only comes with the whole.
section Single

variable {a b : Float32} (equal : (a == b) = true)
include equal

/-- What is the same for both zeros is the same for equal floats. -/
theorem eq_of_beq_single {α : Type} {f : Float32 → α} (zeros : f 0 = f (-0)) : f a = f b := by
  obtain ⟨-, -, rfl | ⟨rfl, rfl⟩ | ⟨rfl, rfl⟩⟩ := Float32.beq_iff_ne_nan_and_eq.1 equal
  · rfl
  · exact zeros
  · exact zeros.symm

theorem quantize32_eq_of_beq : quantize32 a = quantize32 b :=
  eq_of_beq_single equal (by decide)

theorem quantize64_ofSingle_eq_of_beq : quantize64 (Double.ofSingle a) = quantize64 (Double.ofSingle b) :=
  eq_of_beq_single (f := fun x => quantize64 (Double.ofSingle x)) equal (by decide)

end Single

section Double

variable {a b : Float} (equal : (a == b) = true)
include equal

theorem eq_of_beq_double {α : Type} {f : Float → α} (zeros : f 0 = f (-0)) : f a = f b := by
  obtain ⟨-, -, rfl | ⟨rfl, rfl⟩ | ⟨rfl, rfl⟩⟩ := Float.beq_iff_ne_nan_and_eq.1 equal
  · rfl
  · exact zeros
  · exact zeros.symm

theorem quantize64_eq_of_beq : quantize64 a = quantize64 b :=
  eq_of_beq_double equal (by decide)

theorem quantize32_toSingle_eq_of_beq : quantize32 (Double.toSingle a) = quantize32 (Double.toSingle b) :=
  eq_of_beq_double (f := fun x => quantize32 (Double.toSingle x)) equal (by decide)

end Double

end FixedPoint

namespace Value

/-- The integer that a value is, of either width. -/
def integer? : Value → Option Int
  | .int n => some n.toInt
  | .long n => some n.toInt
  | _ => none

theorem asLong?_eq (v : Value) : v.asLong? = v.integer?.map Int64.ofInt := by
  cases v <;> simp [asLong?, integer?]

theorem asInt?_eq_of_integer? {v w : Value} (same : v.integer? = w.integer?) : v.asInt? = w.asInt? := by
  rw [asInt?, asInt?, asLong?_eq, asLong?_eq, same]

/-- An integer that is not an int is a long. -/
theorem eq_long_of_integer? {v : Value} {n : Int} (whole : v.integer? = some n) (refused : v.asInt? = none) :
    v = .long (Int64.ofInt n) := by
  cases v with
  | int a =>
    rw [asInt?_int] at refused
    cases refused
  | long a =>
    cases whole
    rw [Int64.ofInt_toInt]
  | _ => cases whole

/-- The values are the same, up to the order of fields and the sign of zeros. -/
inductive Equal : Value → Value → Prop where
  | same (v : Value) : Equal v v
  | float {a b : Float32} (equal : (a == b) = true) : Equal (.float a) (.float b)
  | double {a b : Float} (equal : (a == b) = true) : Equal (.double a) (.double b)
  | array {as bs : List Value} (length : as.length = bs.length)
      (all : ∀ (i : Nat) a b, as[i]? = some a → bs[i]? = some b → Equal a b) : Equal (.array as) (.array bs)
  | record {as bs : Record} (present : ∀ name, (as.get? name).isSome = (bs.get? name).isSome)
      (all : ∀ name a b, as.get? name = some a → bs.get? name = some b → Equal a b) :
      Equal (.record as) (.record bs)

/-- The values agree in all that the type declares, where `lookup` gives the messages that types refer to. -/
inductive Alike (lookup : String → Option Definition) : FieldType → Value → Value → Prop where
  | equal {type : FieldType} {v w : Value} (equal : v.Equal w) : Alike lookup type v w
  | integer {type : FieldType} {v w : Value} {n : Int} (whole : type = .int ∨ type = .long)
      (left : v.integer? = some n) (right : w.integer? = some n) : Alike lookup type v w
  | array {item : FieldType} {as bs : List Value} (length : as.length = bs.length)
      (all : ∀ (i : Nat) a b, as[i]? = some a → bs[i]? = some b → Alike lookup item a b) :
      Alike lookup (.repeated item) (.array as) (.array bs)
  | record {name : String} {as bs : Record}
      (present : ∀ d, lookup name = some d → ∀ f ∈ d.fields, (as.get? f.name).isSome = (bs.get? f.name).isSome)
      (all : ∀ d, lookup name = some d → ∀ f ∈ d.fields, ∀ a b, as.get? f.name = some a → bs.get? f.name = some b →
        Alike lookup f.type a b) :
      Alike lookup (.message name) (.record as) (.record bs)

variable {lookup : String → Option Definition} {v w : Value}

/-- Alike values where an array is declared: arrays of alike elements, or no arrays. -/
theorem Alike.array_cases {item : FieldType} (alike : v.Alike lookup (.repeated item) w) :
    (∃ as bs, v = .array as ∧ w = .array bs ∧ as.length = bs.length ∧
      ∀ (i : Nat) a b, as[i]? = some a → bs[i]? = some b → a.Alike lookup item b) ∨
    v.asArray? = none ∧ w.asArray? = none ∧ v.typeName = w.typeName := by
  cases alike with
  | equal equal =>
    cases equal with
    | same v =>
      cases v with
      | array items =>
        refine .inl ⟨items, items, rfl, rfl, rfl, fun i a b left right => ?_⟩
        cases left.symm.trans right
        exact .equal (.same a)
      | _ => exact .inr ⟨rfl, rfl, rfl⟩
    | array length all => exact .inl ⟨_, _, rfl, rfl, length, fun i a b left right => .equal (all i a b left right)⟩
    | _ => exact .inr ⟨rfl, rfl, rfl⟩
  | integer whole => rcases whole with isInt | isLong <;> contradiction
  | array length all => exact .inl ⟨_, _, rfl, rfl, length, all⟩

/-- Alike values where a message is declared: records of alike fields, or no records. -/
theorem Alike.record_cases {name : String} (alike : v.Alike lookup (.message name) w) :
    (∃ as bs : Record, v = .record as ∧ w = .record bs ∧ ∀ d, lookup name = some d → ∀ f ∈ d.fields,
      (as.get? f.name).isSome = (bs.get? f.name).isSome ∧
      ∀ a b, as.get? f.name = some a → bs.get? f.name = some b → a.Alike lookup f.type b) ∨
    v.asRecord? = none ∧ w.asRecord? = none ∧ v.typeName = w.typeName := by
  cases alike with
  | equal equal =>
    cases equal with
    | same v =>
      cases v with
      | record fields =>
        refine .inl ⟨fields, fields, rfl, rfl, fun d _ f _ => ⟨rfl, fun a b left right => ?_⟩⟩
        cases left.symm.trans right
        exact .equal (.same a)
      | _ => exact .inr ⟨rfl, rfl, rfl⟩
    | record present all =>
      exact .inl ⟨_, _, rfl, rfl, fun d _ f _ => ⟨present f.name, fun a b left right => .equal (all _ a b left right)⟩⟩
    | _ => exact .inr ⟨rfl, rfl, rfl⟩
  | integer whole => rcases whole with isInt | isLong <;> contradiction
  | record present all =>
    exact .inl ⟨_, _, rfl, rfl, fun d found f member => ⟨present d found f member, all d found f member⟩⟩

end Value

namespace Message

variable {schema : Schema}

theorem forM_congr {α β : Type} {first : α → Write Unit} {second : β → Write Unit} {xs : List α} {ys : List β}
    (same : xs.map first = ys.map second) : xs.forM first = ys.forM second := by
  have writes := congrArg (fun writes => List.forM writes id) same
  simpa using writes

theorem putFields_congr {put : Path → FieldType → Value → Write Unit} {d : Definition} {path : Path} {as bs : Record}
    (present : ∀ f ∈ d.fields, (as.get? f.name).isSome = (bs.get? f.name).isSome)
    (each : ∀ f ∈ d.fields, ∀ a b, as.get? f.name = some a → bs.get? f.name = some b →
      put (path.field f.name) f.type a = put (path.field f.name) f.type b) :
    putFields put d path as = putFields put d path bs := by
  refine forM_congr (List.map_congr_left fun f member => ?_)
  have both := present f member
  cases left : as.get? f.name with
  | none =>
    cases right : bs.get? f.name with
    | none => rfl
    | some b => simp [left, right] at both
  | some a =>
    cases right : bs.get? f.name with
    | none => simp [left, right] at both
    | some b => exact each f member a b left right

theorem putItems_congr {put : Value × Nat → Write Unit} {as bs : List Value} (length : as.length = bs.length)
    (each : ∀ (i : Nat) a b, as[i]? = some a → bs[i]? = some b → put (a, i) = put (b, i)) :
    as.zipIdx.forM put = bs.zipIdx.forM put := by
  refine forM_congr (List.ext_getElem (by simpa using length) fun i left right => ?_)
  simp only [List.length_map, List.length_zipIdx] at left right
  simpa using each i as[i] bs[i] (List.getElem?_eq_getElem left) (List.getElem?_eq_getElem right)

/-- The same integer in either width: if it is out of range, the fault does not depend on the width. -/
theorem putInteger_congr {type : FieldType} (declared : type = .int ∨ type = .long) {v w : Value} {n : Int}
    (left : v.integer? = some n) (right : w.integer? = some n) (levels : Nat) (path : Path) :
    putValue schema levels path type v = putValue schema levels path type w := by
  rcases declared with rfl | rfl
  · rw [putValue, putValue, Value.asInt?_eq_of_integer? (left.trans right.symm)]
    cases accepted : w.asInt? with
    | some a => rfl
    | none =>
      -- An int is never out of range, so both are longs.
      have refused : v.asInt? = none := (Value.asInt?_eq_of_integer? (left.trans right.symm)).trans accepted
      rw [Value.eq_long_of_integer? left refused, Value.eq_long_of_integer? right accepted]
  · rw [putValue, putValue, Value.asLong?_eq, Value.asLong?_eq, left, right]
    rfl

/-- Equal numbers are written alike, and what is refused is refused by the name of its type. -/
theorem putScalar_congr {type : FieldType} (scalar : type.isScalar) {v w : Value}
    (alike : v.Alike schema.get? type w) (levels : Nat) (path : Path) :
    putValue schema levels path type v = putValue schema levels path type w := by
  cases alike with
  | equal equal =>
    cases equal with
    | same => rfl
    | float equal =>
      cases type with
      | float =>
        rw [putValue, putValue]
        simp only [Value.asFloat?, putAccepted, Buffer.putFloat, FixedPoint.quantize32_eq_of_beq equal]
      | double =>
        rw [putValue, putValue]
        simp only [Value.asDouble?, putAccepted, Buffer.putDouble, FixedPoint.quantize64_ofSingle_eq_of_beq equal]
      | repeated _ | message _ => cases scalar
      | _ => rw [putValue, putValue]; rfl
    | double equal =>
      cases type with
      | float =>
        rw [putValue, putValue]
        simp only [Value.asFloat?, Value.asDouble?, Option.map_some, putAccepted, Buffer.putFloat,
          FixedPoint.quantize32_toSingle_eq_of_beq equal]
      | double =>
        rw [putValue, putValue]
        simp only [Value.asDouble?, putAccepted, Buffer.putDouble, FixedPoint.quantize64_eq_of_beq equal]
      | repeated _ | message _ => cases scalar
      | _ => rw [putValue, putValue]; rfl
    | array _ _ | record _ _ =>
      cases type with
      | repeated _ | message _ => cases scalar
      | _ => rw [putValue, putValue]; rfl
  | integer declared left right => exact putInteger_congr declared left right levels path
  | array _ _ | record _ _ => cases scalar

/-- Writing does not tell alike values apart. Induction on the levels left. -/
theorem putValue_congr {levels : Nat} {type : FieldType} {v w : Value} (alike : v.Alike schema.get? type w)
    (path : Path) : putValue schema levels path type v = putValue schema levels path type w := by
  induction levels using Nat.strongRecOn generalizing path type v w with
  | ind levels ih =>
    cases type with
    | repeated item =>
      obtain _ | below := levels
      · rw [putValue, putValue]
      · rcases alike.array_cases with ⟨as, bs, rfl, rfl, length, all⟩ | ⟨left, right, named⟩
        · rw [putValue, putValue]
          simp only [Value.asArray?, length]
          congr 1
          funext _
          exact putItems_congr length fun i a b left right => ih below (Nat.lt_succ_self below) (all i a b left right) _
        · rw [putValue, putValue, left, right]
          simp only [found, named]
    | message name =>
      rcases alike.record_cases with ⟨as, bs, rfl, rfl, all⟩ | ⟨left, right, named⟩
      · cases known : schema.get? name with
        | none =>
          simp only [putValue, Value.asRecord?, Schema.require, known]
          rfl
        | some d =>
          obtain _ | below := levels
          · simp only [putValue, Value.asRecord?, Schema.require, known]
          · have fields := all d known
            rw [putMessage_eq known, putMessage_eq known]
            exact putFields_congr (fun f member => (fields f member).1)
              fun f member a b left right => ih below (Nat.lt_succ_self below) ((fields f member).2 a b left right) _
      · rw [putValue, putValue, left, right]
        simp only [found, named]
    | _ => exact putScalar_congr rfl alike levels path

/-- Encoding does not tell alike messages apart: it gives the same bytes for both, or the same fault. -/
theorem encode_eq_of_alike {schema : Schema} {type : String} {a b : Record}
    (alike : (Value.record a).Alike schema.get? (.message type) (.record b)) (config : Config) :
    encode schema config type a = encode schema config type b := by
  cases found : schema.get? type with
  | none => rw [encode_of_unknown found, encode_of_unknown found]
  | some d =>
    have body : putBody schema d a = putBody schema d b := by
      rw [putBody, putBody, ← putMessage_eq found, ← putMessage_eq found]
      exact putValue_congr alike .top
    rw [encode_of_known found, encode_of_known found, body]

def sensor : Schema :=
  ⟨"1", [⟨"Sensor", "s", [⟨"id", .long⟩, ⟨"level", .float⟩, ⟨"parts", .repeated (.message "Part")⟩]⟩,
    ⟨"Part", "p", [⟨"size", .int⟩]⟩]⟩

def reading : Record :=
  [("id", .int 5), ("level", .double 0.0), ("parts", .array [.record [("size", .int 3)]])]

/-- The same reading in another order, with integers of the other width, the other zero, and fields that
are declared elsewhere or nowhere. -/
def variedReading : Record :=
  [("parts", .array [.record [("level", .bool true), ("size", .long 3)]]), ("note", .string "spare"),
    ("level", .double (-0.0)), ("size", .array []), ("id", .long 5)]

theorem encode_variedReading :
    (Value.record reading).Alike sensor.get? (.message "Sensor") (.record variedReading) ∧
      encode sensor ⟨0, 0⟩ "Sensor" reading = encode sensor ⟨0, 0⟩ "Sensor" variedReading := by
  have part : (Value.record [("size", .int 3)]).Alike sensor.get? (.message "Part")
      (.record [("level", .bool true), ("size", .long 3)]) := by
    refine .record (by rintro _ ⟨⟩; decide) ?_
    rintro _ ⟨⟩ f member a b left right
    obtain rfl := List.mem_singleton.1 member
    cases left
    cases right
    exact .integer (.inl rfl) rfl rfl
  have parts : (Value.array [.record [("size", .int 3)]]).Alike sensor.get? (.repeated (.message "Part"))
      (.array [.record [("level", .bool true), ("size", .long 3)]]) := by
    refine .array rfl ?_
    rintro (_ | i) a b left right
    · cases left
      cases right
      exact part
    · cases left
  have alike : (Value.record reading).Alike sensor.get? (.message "Sensor") (.record variedReading) := by
    refine .record (by rintro _ ⟨⟩; decide) ?_
    rintro _ ⟨⟩ f member a b left right
    simp only [List.mem_cons, List.not_mem_nil, or_false] at member
    rcases member with rfl | rfl | rfl
    · cases left
      cases right
      exact .integer (.inr rfl) rfl rfl
    · cases left
      cases right
      exact .equal (.double (by decide))
    · cases left
      cases right
      exact parts
  exact ⟨alike, encode_eq_of_alike alike ⟨0, 0⟩⟩

end Message

end Wirepack
