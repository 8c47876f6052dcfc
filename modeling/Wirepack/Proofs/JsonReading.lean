import Mathlib.Data.List.Zip
import Wirepack.Proofs.JsonParts

/-!
# What a JSON value stands for

JSON has one kind of number and objects in any order with any members, so the declared type decides
which value a JSON value stands for. `StandsFor` says so by rules, one for each type, and conversion
from JSON gives exactly the value that the rules allow. Whatever it gives has its declared type.
-/

namespace Wirepack
set_option autoImplicit false

/-- The JSON value stands for the value of that type, where `lookup` gives the messages that types
refer to. Of an object only the declared members count. -/
inductive Json.StandsFor (lookup : String → Option Definition) : FieldType → Json → Value → Prop where
  | bool (v : Bool) : StandsFor lookup .bool (.bool v) (.bool v)
  | int {json : Json} {n : Int64} {v : Int32} (integer : json.asInt64? = some n) (fits : Message.narrow? n = some v) :
      StandsFor lookup .int json (.int v)
  | long {json : Json} {v : Int64} (integer : json.asInt64? = some v) : StandsFor lookup .long json (.long v)
  | float {json : Json} {x : Float} (number : json.asFloat? = some x) : StandsFor lookup .float json (.float x.toFloat32)
  | double {json : Json} {x : Float} (number : json.asFloat? = some x) : StandsFor lookup .double json (.double x)
  | string (text : String) : StandsFor lookup .string (.string text) (.string text)
  | array {item : FieldType} {items : List Json} {values : List Value} (same : items.length = values.length)
      (all : ∀ pair ∈ items.zip values, StandsFor lookup item pair.1 pair.2) :
      StandsFor lookup (.repeated item) (.array items) (.array values)
  | object {name : String} {d : Definition} {members : List (String × Json)} {fields : List (String × Value)}
      (found : lookup name = some d) (named : fields.map Prod.fst = d.fields.map Field.name)
      (present : ∀ f ∈ d.fields, (Json.member? members f.name).isSome)
      (all : ∀ pair ∈ d.fields.zip fields, ∀ part, Json.member? members pair.1.name = some part →
        StandsFor lookup pair.1.type part pair.2.2) :
      StandsFor lookup (.message name) (.object members) (.record fields)

theorem Json.asInt64?_eq_some {json : Json} {n : Int64} : json.asInt64? = some n ↔ json = .ofInt n.toInt := by
  constructor
  · intro integer
    unfold asInt64? at integer
    split at integer
    · split at integer
      · next inside =>
        cases integer
        rw [ofInt, Int64.toInt_ofInt_of_le inside.1 inside.2]
      · cases integer
    · cases integer
  · rintro rfl
    have low := n.le_toInt
    have high := n.toInt_lt
    rw [ofInt, asInt64?, if_pos (by omega), Int64.ofInt_toInt]

theorem Message.narrow?_eq_some {n : Int64} {v : Int32} : narrow? n = some v ↔ n = v.toInt64 := by
  constructor
  · intro fits
    simp only [narrow?, Value.asInt?, Value.asLong?] at fits
    split at fits
    · cases fits
      rw [← Int64.toInt_inj, Int32.toInt_toInt64, Int64.toInt_toInt32]
      exact (Int.bmod_eq_of_le (by omega) (by omega)).symm
    · cases fits
  · rintro rfl
    exact Value.asInt?_int v

/-- Two lists of one length are paired in full. -/
theorem exists_mem_zip {α β : Type} {xs : List α} {ys : List β} (same : xs.length = ys.length) {y : β}
    (member : y ∈ ys) : ∃ x, (x, y) ∈ xs.zip ys := by
  obtain ⟨i, inside, rfl⟩ := List.getElem_of_mem member
  exact ⟨xs[i], List.mem_iff_getElem.2 ⟨i, by simp; omega, by simp⟩⟩

theorem Json.StandsFor.typed {lookup : String → Option Definition} {type : FieldType} {json : Json} {v : Value}
    (stands : json.StandsFor lookup type v) : v.Typed lookup type := by
  induction stands with
  | bool v => exact .bool v
  | int => exact .int _
  | long => exact .long _
  | float => exact .float _
  | double => exact .double _
  | string text => exact .string text
  | @array item items values same all ih =>
    apply Value.Typed.array
    intro v member
    obtain ⟨json, paired⟩ := exists_mem_zip same member
    exact ih (json, v) paired
  | @object name d members fields found named present all ih =>
    apply Value.Typed.record found named
    intro pair member
    obtain ⟨part, has⟩ := Option.isSome_iff_exists.1 (present pair.1 (List.of_mem_zip member).1)
    exact ih pair member part has

namespace Message

variable {schema : Schema}

theorem accept_eq_ok {α : Type} {path : Path} {type : FieldType} {json : Json} {accepted : Option α} {a : α} :
    accept path type json accepted = .ok a ↔ accepted = some a := by
  cases accepted <;> simp [accept]

theorem standsFor_of_scalar {type : FieldType} (scalar : type.isScalar) {path : Path} {json : Json} {v : Value}
    (run : valueOfJson schema path type json = .ok v) : json.StandsFor schema.get? type v := by
  cases type with
  | repeated _ | message _ => cases scalar
  | int =>
    rw [valueOfJson] at run
    obtain ⟨n, accepted, ⟨⟩⟩ := Check.bind_eq_ok.1 run
    obtain ⟨wide, integer, fits⟩ := Option.bind_eq_some_iff.1 (accept_eq_ok.1 accepted)
    exact .int integer fits
  | long =>
    rw [valueOfJson] at run
    obtain ⟨n, accepted, ⟨⟩⟩ := Check.bind_eq_ok.1 run
    exact .long (accept_eq_ok.1 accepted)
  | float =>
    rw [valueOfJson] at run
    obtain ⟨x, accepted, ⟨⟩⟩ := Check.bind_eq_ok.1 run
    exact .float (accept_eq_ok.1 accepted)
  | double =>
    rw [valueOfJson] at run
    obtain ⟨x, accepted, ⟨⟩⟩ := Check.bind_eq_ok.1 run
    exact .double (accept_eq_ok.1 accepted)
  | bool =>
    cases json with
    | bool b =>
      rw [valueOfJson] at run
      cases run
      exact .bool b
    | _ => simp [valueOfJson] at run
  | string =>
    cases json with
    | string text =>
      rw [valueOfJson] at run
      cases run
      exact .string text
    | _ => simp [valueOfJson] at run

/-- Conversion gives only what the rules allow. Induction on the size of the JSON value. -/
theorem standsFor_of_valueOfJson (distinct : ∀ d ∈ schema.messages, (d.fields.map Field.name).Nodup) {path : Path}
    {type : FieldType} {json : Json} {v : Value} (run : valueOfJson schema path type json = .ok v) :
    json.StandsFor schema.get? type v := by
  induction size : sizeOf json using Nat.strongRecOn generalizing path type json v with
  | ind n ih =>
    subst size
    cases type with
    | repeated item =>
      cases json with
      | array items =>
        rw [valueOfJson] at run
        obtain ⟨values, converted, ⟨⟩⟩ := Check.bind_eq_ok.1 run
        rw [itemsOfJson_eq] at converted
        obtain ⟨same, all⟩ := eachItem_eq_ok.1 converted
        apply Json.StandsFor.array same
        intro pair member
        obtain ⟨i, place⟩ := List.getElem?_of_mem member
        have smaller := List.sizeOf_lt_of_mem (List.of_mem_zip member).1
        apply ih (sizeOf pair.1) _ (all (pair, i) (List.mk_mem_zipIdx_iff_getElem?.2 place)) rfl
        rw [Json.array.sizeOf_spec]
        omega
      | _ => simp [valueOfJson] at run
    | message name =>
      rw [valueOfJson] at run
      obtain ⟨record, converted, ⟨⟩⟩ := Check.bind_eq_ok.1 run
      obtain ⟨d, members, found, rfl, named, all⟩ := (recordOfJson_eq_ok distinct).1 converted
      apply Json.StandsFor.object found named
      · intro f member
        obtain ⟨field, paired⟩ := Value.Typed.exists_field named member
        obtain ⟨part, has, -⟩ := all (f, field) paired
        exact Option.isSome_iff_exists.2 ⟨part, has⟩
      · intro pair member part has
        obtain ⟨_, present, run⟩ := all pair member
        cases present.symm.trans has
        have smaller := Json.sizeOf_member_lt has
        apply ih (sizeOf part) _ run rfl
        rw [Json.object.sizeOf_spec]
        omega
    | _ => exact standsFor_of_scalar rfl run

/-- Conversion gives all that the rules allow, wherever the value stands. -/
theorem valueOfJson_of_standsFor (distinct : ∀ d ∈ schema.messages, (d.fields.map Field.name).Nodup)
    {type : FieldType} {json : Json} {v : Value} (stands : json.StandsFor schema.get? type v) (path : Path) :
    valueOfJson schema path type json = .ok v := by
  induction stands generalizing path with
  | bool v => rw [valueOfJson]
  | int integer fits =>
    rw [valueOfJson]
    exact Check.bind_eq_ok.2 ⟨_, accept_eq_ok.2 (Option.bind_eq_some_iff.2 ⟨_, integer, fits⟩), rfl⟩
  | long integer =>
    rw [valueOfJson]
    exact Check.bind_eq_ok.2 ⟨_, accept_eq_ok.2 integer, rfl⟩
  | float number =>
    rw [valueOfJson]
    exact Check.bind_eq_ok.2 ⟨_, accept_eq_ok.2 number, rfl⟩
  | double number =>
    rw [valueOfJson]
    exact Check.bind_eq_ok.2 ⟨_, accept_eq_ok.2 number, rfl⟩
  | string text => rw [valueOfJson]
  | @array item items values same all ih =>
    rw [valueOfJson, itemsOfJson_eq]
    refine Check.bind_eq_ok.2 ⟨values, eachItem_eq_ok.2 ⟨same, ?_⟩, rfl⟩
    intro pair member
    exact ih pair.1 (List.fst_mem_of_mem_zipIdx member) (path.index pair.2)
  | @object name d members fields found named present all ih =>
    rw [valueOfJson]
    refine Check.bind_eq_ok.2 ⟨fields, (recordOfJson_eq_ok distinct).2 ⟨d, members, found, rfl, named, ?_⟩, rfl⟩
    intro pair member
    obtain ⟨part, has⟩ := Option.isSome_iff_exists.1 (present pair.1 (List.of_mem_zip member).1)
    exact ⟨part, has, ih pair member part has (path.field pair.1.name)⟩

theorem ofJson_eq_ok (distinct : ∀ d ∈ schema.messages, (d.fields.map Field.name).Nodup) {type : String}
    {json : Json} {record : Record} :
    ofJson schema type json = .ok record ↔ json.StandsFor schema.get? (.message type) (.record record) := by
  have whole : ofJson schema type json = .ok record ↔
      valueOfJson schema .top (.message type) json = .ok (.record record) := by
    rw [valueOfJson, Check.bind_eq_ok, ofJson]
    simp [pure, Except.pure]
  rw [whole]
  exact ⟨standsFor_of_valueOfJson distinct, fun stands => valueOfJson_of_standsFor distinct stands .top⟩

end Message

end Wirepack
