import Wirepack.Proofs.Doubles
import Wirepack.Proofs.ExactTypes

/-!
# Encoding by way of JSON

A message can be converted to JSON and back before it is encoded, and its payload stays the same. JSON
numbers have no width, but the declared types restore it: the message that comes back is the declared
part of the one that went, whose bytes are what encoding writes in the first place. Only floats stand
out: a single-precision float is rounded on the way, and what is not finite has no JSON number.
-/

namespace Wirepack
set_option autoImplicit false

namespace Value

/-- Where a value of the type `outer` is expected, the value holds `part` at a place of the type `inner`. -/
inductive Holds (lookup : String → Option Definition) : FieldType → Value → FieldType → Value → Prop where
  | self (type : FieldType) (v : Value) : Holds lookup type v type v
  | item {item inner : FieldType} {items : List Value} {v part : Value} (member : v ∈ items)
      (below : Holds lookup item v inner part) : Holds lookup (.repeated item) (.array items) inner part
  | field {name : String} {d : Definition} {f : Field} {record : Record} {inner : FieldType} {v part : Value}
      (found : lookup name = some d) (member : f ∈ d.fields) (present : record.get? f.name = some v)
      (below : Holds lookup f.type v inner part) : Holds lookup (.message name) (.record record) inner part

/-- Not an infinity and not the result of an undefined operation. -/
def Finite : Value → Prop
  | .float v => v.isFinite
  | .double v => v.isFinite
  | _ => True

/-- A finite number of any width is a finite double. -/
theorem Finite.isFinite_asDouble {v : Value} (finite : v.Finite) {x : Float} (number : v.asDouble? = some x) :
    x.isFinite = true := by
  cases v with
  | int n =>
    have low := n.le_toInt
    have high := n.toInt_lt
    cases number
    exact Double.isFinite_ofInt (by omega)
  | long n =>
    have low := n.le_toInt
    have high := n.toInt_lt
    cases number
    exact Double.isFinite_ofInt (by omega)
  | float y =>
    cases number
    exact Double.isFinite_ofSingle finite
  | double y =>
    cases number
    exact finite
  | _ => cases number

end Value

theorem Json.member?_of_mem_zip {declared : List Field} {members : List (String × Json)}
    (named : members.map Prod.fst = declared.map Field.name) (distinct : (declared.map Field.name).Nodup)
    {pair : Field × String × Json} (member : pair ∈ declared.zip members) :
    Json.member? members pair.1.name = some pair.2.2 := by
  have different : (members.reverse.map Prod.fst).Nodup := by
    rw [((List.reverse_perm members).map Prod.fst).nodup_iff, named]
    exact distinct
  rw [← Value.Typed.name_of_mem_zip named member]
  exact Keyed.get?_of_mem different (List.mem_reverse.2 (List.of_mem_zip member).2)

namespace Message

variable {schema : Schema}

theorem scalarToJson?_of_valueToJson {type : FieldType} (scalar : type.isScalar) {path : Path} {v : Value} {json : Json}
    (run : valueToJson schema path type v = .ok json) : scalarToJson? type v = some json := by
  rw [valueToJson_scalar scalar] at run
  cases converted : scalarToJson? type v with
  | none =>
    rw [converted] at run
    cases run
  | some other =>
    rw [converted] at run
    cases run
    rfl

theorem standsFor_scalar {type : FieldType} (scalar : type.isScalar) (double : type ≠ .float) {v : Value} {json : Json}
    (finite : type = .double → v.Finite) (converted : scalarToJson? type v = some json) :
    json.StandsFor schema.get? type (declared schema type v) := by
  cases type with
  | repeated _ | message _ => cases scalar
  | int =>
    obtain ⟨n, accepted, rfl⟩ := Option.map_eq_some_iff.1 converted
    have wide : n.toInt64.toInt = n.toInt := Int32.toInt_toInt64 n
    rw [declared, accepted]
    exact .int (Json.asInt64?_eq_some.2 (by rw [wide])) (narrow?_eq_some.2 rfl)
  | long =>
    obtain ⟨n, accepted, rfl⟩ := Option.map_eq_some_iff.1 converted
    rw [declared, accepted]
    exact .long (Json.asInt64?_eq_some.2 rfl)
  | float => exact absurd rfl double
  | double =>
    obtain ⟨x, accepted, rfl⟩ := Option.map_eq_some_iff.1 converted
    rw [declared, accepted, Json.ofFloat, if_pos ((finite rfl).isFinite_asDouble accepted)]
    exact .double rfl
  | bool =>
    cases v with
    | bool b =>
      cases converted
      rw [declared]
      exact .bool b
    | _ => cases converted
  | string =>
    cases v with
    | string text =>
      cases converted
      rw [declared]
      exact .string text
    | _ => cases converted

/-- An object stands for the declared part of a record if its members, one for each field, do so. -/
theorem standsFor_object {name : String} {d : Definition} {record : Record} {members : List (String × Json)}
    (found : schema.get? name = some d) (different : (d.fields.map Field.name).Nodup)
    (names : members.map Prod.fst = d.fields.map Field.name)
    (each : ∀ pair ∈ d.fields.zip members, ∃ v, record.get? pair.1.name = some v ∧
      pair.2.2.StandsFor schema.get? pair.1.type (declared schema pair.1.type v)) :
    (Json.object members).StandsFor schema.get? (.message name) (.record (declaredRecord schema name record)) := by
  have present : ∀ f ∈ d.fields, (record.get? f.name).isSome := by
    intro f member
    obtain ⟨entry, paired⟩ := Value.Typed.exists_field names member
    obtain ⟨v, has, -⟩ := each (f, entry) paired
    exact Option.isSome_iff_exists.2 ⟨v, has⟩
  obtain ⟨named, parts⟩ := (declaredRecord_eq_iff found present).1 rfl
  -- Fields and members are both in declared order, so each is found through the place of the other.
  apply Json.StandsFor.object found named
  · intro f member
    obtain ⟨entry, paired⟩ := Value.Typed.exists_field names member
    exact Option.isSome_iff_exists.2 ⟨entry.2, Json.member?_of_mem_zip names different paired⟩
  · intro pair member part has
    obtain ⟨entry, paired⟩ := Value.Typed.exists_field names (List.of_mem_zip member).1
    obtain ⟨v, there, stands⟩ := each (pair.1, entry) paired
    obtain ⟨_, again, same⟩ := parts pair member
    cases there.symm.trans again
    cases (Json.member?_of_mem_zip names different paired).symm.trans has
    rw [← same]
    exact stands

/-- What a value becomes in JSON stands for its declared part. Induction on the size of the value. -/
theorem standsFor_of_valueToJson (distinct : ∀ d ∈ schema.messages, (d.fields.map Field.name).Nodup) {path : Path}
    {type : FieldType} {v : Value} {json : Json} (run : valueToJson schema path type v = .ok json)
    (none : ¬ type.Reaches schema.get? .float)
    (finite : ∀ part, v.Holds schema.get? type .double part → part.Finite) :
    json.StandsFor schema.get? type (declared schema type v) := by
  induction size : sizeOf v using Nat.strongRecOn generalizing path type v json with
  | ind n ih =>
    subst size
    by_cases scalar : type.isScalar
    · apply standsFor_scalar scalar
      · rintro rfl
        exact none (.self _)
      · rintro rfl
        exact finite v (.self _ v)
      · exact scalarToJson?_of_valueToJson scalar run
    · cases type with
      | repeated item =>
        cases v with
        | array items =>
          rw [valueToJson, itemsToJson_eq] at run
          obtain ⟨out, converted, ⟨⟩⟩ := Check.bind_eq_ok.1 run
          obtain ⟨same, all⟩ := eachItem_eq_ok.1 converted
          rw [declared]
          apply Json.StandsFor.array (by simp [same])
          intro pair member
          rw [← List.zip_swap, List.zip_map_left, List.map_map, List.mem_map] at member
          obtain ⟨parts, paired, rfl⟩ := member
          obtain ⟨i, place⟩ := List.getElem?_of_mem paired
          have inside := (List.of_mem_zip paired).1
          have smaller := List.sizeOf_lt_of_mem inside
          apply ih (sizeOf parts.1) _ (all (parts, i) (List.mk_mem_zipIdx_iff_getElem?.2 place))
            (fun below => none (.item below)) (fun part below => finite part (.item inside below)) rfl
          rw [Value.array.sizeOf_spec]
          omega
        | _ => simp [valueToJson, scalarToJson?] at run
      | message name =>
        cases v with
        | record record =>
          rw [valueToJson] at run
          obtain ⟨d, members, found, rfl, names, each⟩ := (recordToJson_eq_ok distinct).1 run
          rw [declared]
          apply standsFor_object found (distinct d (List.mem_of_find?_eq_some found)) names
          intro pair member
          have inside := (List.of_mem_zip member).1
          obtain ⟨v, there, run⟩ := each pair member
          have smaller := Value.sizeOf_field_lt there
          refine ⟨v, there, ?_⟩
          apply ih (sizeOf v) _ run (fun below => none (.field found inside below))
            (fun part below => finite part (.field found inside there below)) rfl
          rw [Value.record.sizeOf_spec]
          omega
        | _ => simp [valueToJson, scalarToJson?] at run
      | _ => exact absurd rfl scalar

/-- If a message can be encoded, it can be converted to JSON and back, and what comes back has the same
payload. No field may be of single precision, and what stands for a double must be finite. -/
theorem encode_through_json (distinct : ∀ d ∈ schema.messages, (d.fields.map Field.name).Nodup) {type : String}
    (none : ¬ (FieldType.message type).Reaches schema.get? .float) {config : Config} {record : Record}
    {payload : Bytes} (encoded : encode schema config type record = .ok payload)
    (finite : ∀ part, (Value.record record).Holds schema.get? (.message type) .double part → part.Finite) :
    ∃ json back, toJson schema type record = .ok json ∧ ofJson schema type json = .ok back ∧
      ∀ writing, encode schema writing type back = .ok payload := by
  obtain ⟨d, found, typed, within, rfl⟩ := encode_wrote encoded
  obtain ⟨json, converted⟩ := toJson_of_encode encoded
  have run : valueToJson schema .top (.message type) (.record record) = .ok json := by
    rw [valueToJson]
    exact converted
  have stands := standsFor_of_valueToJson distinct run none finite
  rw [declared] at stands
  exact ⟨json, declaredRecord schema type record, converted, (ofJson_eq_ok distinct).2 stands,
    encode_of_within distinct found typed within⟩

def spot : Definition := ⟨"Spot", "p", [⟨"height", .double⟩]⟩

def survey : Schema :=
  ⟨"1", [⟨"Survey", "s", [⟨"count", .int⟩, ⟨"total", .long⟩, ⟨"spots", .repeated (.message "Spot")⟩]⟩, spot]⟩

/-- Each number in another width than declared but for one, and fields that are not declared. -/
def widened : Record :=
  [("total", .int (-2)), ("note", .string "spare"),
    ("spots", .array [.record [("height", .long 3)], .record [("mark", .bool true), ("height", .double 0.5)]]),
    ("count", .long 5)]

theorem survey_not_reaches_float : ¬ (FieldType.message "Survey").Reaches survey.get? .float := by
  intro reaches
  cases reaches with
  | field found member below =>
    cases found
    simp only [List.mem_cons, List.not_mem_nil, or_false] at member
    rcases member with rfl | rfl | rfl
    · cases below
    · cases below
    · cases below with
      | item below =>
        cases below with
        | field found member below =>
          have known : survey.get? "Spot" = some spot := rfl
          cases known.symm.trans found
          obtain rfl := List.mem_singleton.1 member
          cases below

theorem widened_finite (part : Value)
    (holds : (Value.record widened).Holds survey.get? (.message "Survey") .double part) : part.Finite := by
  cases holds with
  | field found member present below =>
    cases found
    simp only [List.mem_cons, List.not_mem_nil, or_false] at member
    rcases member with rfl | rfl | rfl
    · cases below
    · cases below
    · cases present
      cases below with
      | item member below =>
        cases below with
        | field found inside present below =>
          have known : survey.get? "Spot" = some spot := rfl
          cases known.symm.trans found
          obtain rfl := List.mem_singleton.1 inside
          cases below
          simp only [List.mem_cons, List.not_mem_nil, or_false, Value.record.injEq] at member
          rcases member with rfl | rfl
          · cases present
            trivial
          · cases present
            show (0.5 : Float).isFinite = true
            decide

theorem encode_through_json_survey : ∃ payload json back,
    encode survey ⟨0, 0⟩ "Survey" widened = .ok payload ∧ toJson survey "Survey" widened = .ok json ∧
      ofJson survey "Survey" json = .ok back ∧ encode survey ⟨0, 0⟩ "Survey" back = .ok payload := by
  have encodes : ∃ payload, encode survey ⟨0, 0⟩ "Survey" widened = .ok payload := ⟨_, rfl⟩
  obtain ⟨payload, encoded⟩ := encodes
  obtain ⟨json, back, converted, restored, same⟩ :=
    encode_through_json (by decide) survey_not_reaches_float encoded widened_finite
  exact ⟨payload, json, back, encoded, converted, restored, same ⟨0, 0⟩⟩

end Message

end Wirepack
