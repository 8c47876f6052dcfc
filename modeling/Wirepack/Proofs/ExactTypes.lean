import Wirepack.Proofs.Canonical
import Wirepack.Proofs.JsonReading
import Wirepack.Proofs.Verdicts

/-!
# Messages that the library makes have their declared types

There are two ways to get a message: from a payload, and from JSON. Both give exactly the declared
fields, each with a value of its declared type, however deep. Such a message can be converted to JSON,
and it can be encoded unless it is too deep, which no message from a payload is. None of this needs a
valid schema: a message that is not defined does no harm where no value of it occurs.
-/

namespace Wirepack.Message
set_option autoImplicit false

variable {schema : Schema}

/-- Every value of a type has a JSON form. Induction on the typing. -/
theorem valueToJson_of_typed (distinct : ∀ d ∈ schema.messages, (d.fields.map Field.name).Nodup) {type : FieldType}
    {v : Value} (typed : v.Typed schema.get? type) (path : Path) :
    ∃ json, valueToJson schema path type v = .ok json := by
  induction typed generalizing path with
  | @array item items all ih =>
    have parts : ∃ out, eachItem (fun i => valueToJson schema (path.index i) item) 0 items = .ok out := by
      apply Check.mapM_ok
      intro (v, i) member
      exact ih v (List.fst_mem_of_mem_zipIdx member) (path.index i)
    obtain ⟨out, converted⟩ := parts
    refine ⟨.array out, ?_⟩
    rw [valueToJson, itemsToJson_eq]
    exact Check.bind_eq_ok.2 ⟨out, converted, rfl⟩
  | @record name d fields found named all ih =>
    have different := distinct d (List.mem_of_find?_eq_some found)
    have parts : ∀ f ∈ d.fields, ∃ json, fieldToJson schema path d fields f = .ok json := by
      intro f member
      obtain ⟨field, paired⟩ := Value.Typed.exists_field named member
      obtain ⟨json, converted⟩ := ih (f, field) paired (path.field f.name)
      have present := Value.Typed.get?_of_mem_zip named different paired
      exact ⟨json, fieldToJson_eq_ok.2 ⟨field.2, present, converted⟩⟩
    obtain ⟨members, converted⟩ := eachField_ok parts
    refine ⟨.object (Keyed.ofList members), ?_⟩
    rw [valueToJson, recordToJson_of_known found]
    exact Check.bind_eq_ok.2 ⟨members, converted, rfl⟩
  | int v =>
    rw [valueToJson_scalar rfl]
    simp [scalarToJson?, Value.asInt?_int]
  | _ =>
    rw [valueToJson_scalar rfl]
    simp [scalarToJson?, Value.asLong?, Value.asDouble?]

section Made

variable {type : String} {record : Record}

theorem toJson_of_typed (distinct : ∀ d ∈ schema.messages, (d.fields.map Field.name).Nodup)
    (typed : (Value.record record).Typed schema.get? (.message type)) :
    ∃ json, toJson schema type record = .ok json := by
  obtain ⟨json, converted⟩ := valueToJson_of_typed distinct typed .top
  rw [valueToJson] at converted
  exact ⟨json, converted⟩

/-- Nothing but its depth can keep a typed message from being encoded. -/
theorem encode_of_typed (distinct : ∀ d ∈ schema.messages, (d.fields.map Field.name).Nodup)
    (typed : (Value.record record).Typed schema.get? (.message type)) (config : Config) :
    (∃ payload, encode schema config type record = .ok payload) ∨
      ∃ name, encode schema config type record = .error (.tooDeep name) := by
  obtain ⟨json, converted⟩ := toJson_of_typed distinct typed
  have verdict := encode_agrees schema config type record
  rw [converted] at verdict
  revert verdict
  generalize encode schema config type record = written
  intro verdict
  cases verdict with
  | tooDeep name => exact .inr ⟨name, rfl⟩
  | succeed payload => exact .inl ⟨payload, rfl⟩

theorem accepted_of_decode (distinct : ∀ d ∈ schema.messages, (d.fields.map Field.name).Nodup) {config : Config}
    {data : Bytes} (decoded : decode schema config type data = .ok record) :
    ∃ d taken, schema.get? type = some d ∧
      Record.Accepted schema.get? config.maxCollection Schema.maxDepth d.fields record taken := by
  rw [decode] at decoded
  split at decoded
  · next after run =>
    cases decoded
    obtain ⟨_, -, d, taken, found, -, accepted, -⟩ := read_yields distinct config.maxCollection type _ after record run
    exact ⟨d, taken, found, accepted⟩
  · cases decoded

/-- A message from a payload, or from JSON, has exactly its declared fields with values of their
declared types throughout. So it can be converted to JSON, and decoding to JSON fails only where decoding
does; it can be encoded if it was decoded, and if it came from JSON unless it is too deep. -/
theorem made_messages_typed (distinct : ∀ d ∈ schema.messages, (d.fields.map Field.name).Nodup) (type : String) :
    (∀ config data record, decode schema config type data = .ok record →
      (Value.record record).Typed schema.get? (.message type) ∧
      (∃ json, toJson schema type record = .ok json) ∧
      ∀ writing, ∃ payload, encode schema writing type record = .ok payload) ∧
    (∀ config data fault, decodeJson schema config type data = .error fault ↔
      decode schema config type data = .error fault) ∧
    ∀ json record, ofJson schema type json = .ok record →
      (Value.record record).Typed schema.get? (.message type) ∧
      (∃ again, toJson schema type record = .ok again) ∧
      ∀ config, (∃ payload, encode schema config type record = .ok payload) ∨
        ∃ name, encode schema config type record = .error (.tooDeep name) := by
  have decoded : ∀ config data record, decode schema config type data = .ok record →
      (Value.record record).Typed schema.get? (.message type) ∧ ∀ writing, ∃ payload,
        encode schema writing type record = .ok payload := by
    intro config data record run
    obtain ⟨d, taken, found, accepted⟩ := accepted_of_decode distinct run
    exact ⟨.record found accepted.named accepted.typed,
      fun writing => ⟨_, encode_of_accepted distinct found accepted writing⟩⟩
  refine ⟨fun config data record run => ?_, fun config data fault => ?_, fun json record run => ?_⟩
  · obtain ⟨typed, encodes⟩ := decoded config data record run
    exact ⟨typed, toJson_of_typed distinct typed, encodes⟩
  · unfold decodeJson
    cases run : decode schema config type data with
    | error other => simp [bind, Except.bind]
    | ok record =>
      obtain ⟨json, converted⟩ := toJson_of_typed distinct (decoded config data record run).1
      show toJson schema type record = _ ↔ _
      simp [converted]
  · have typed := ((ofJson_eq_ok distinct).1 run).typed
    exact ⟨typed, toJson_of_typed distinct typed, encode_of_typed distinct typed⟩

end Made

/-- Tags are of a message that is not defined, so that only a crate without tags can be had. -/
def crate : Schema :=
  ⟨"1", [⟨"Crate", "c", [⟨"tags", .repeated (.message "Gone")⟩, ⟨"count", .int⟩]⟩]⟩

def untagged : Record := [("tags", .array []), ("count", .int 5)]

/-- An object in another order, with a member that is not declared. -/
def listed : Json := .object [("count", .number (.integer 5)), ("note", .null), ("tags", .array [])]

theorem made_crate_typed :
    decode crate ⟨0, 0⟩ "Crate" [2, 99, 0, 10] = .ok untagged ∧
    ofJson crate "Crate" listed = .ok untagged ∧
    (Value.record untagged).Typed crate.get? (.message "Crate") ∧
    (∃ payload, encode crate ⟨0, 0⟩ "Crate" untagged = .ok payload) ∧
    ∃ json, toJson crate "Crate" untagged = .ok json := by
  have decoded : decode crate ⟨0, 0⟩ "Crate" [2, 99, 0, 10] = .ok untagged := rfl
  have known : crate.get? "Crate" = some ⟨"Crate", "c", [⟨"tags", .repeated (.message "Gone")⟩, ⟨"count", .int⟩]⟩ := rfl
  have converted : ofJson crate "Crate" listed = .ok untagged := by
    apply (ofJson_eq_ok (by decide)).2
    refine .object known rfl (by decide) (List.forall_mem_cons.2 ⟨?_, List.forall_mem_cons.2 ⟨?_, by simp⟩⟩)
    · rintro part ⟨⟩
      exact .array rfl (by simp)
    · rintro part ⟨⟩
      exact .int rfl rfl
  obtain ⟨ofPayload, -, ofObject⟩ := @made_messages_typed crate (by decide) "Crate"
  obtain ⟨typed, -, encodes⟩ := ofPayload ⟨0, 0⟩ _ _ decoded
  exact ⟨decoded, converted, typed, encodes ⟨0, 0⟩, (ofObject _ _ converted).2.1⟩

end Wirepack.Message
