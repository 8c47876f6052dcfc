import Wirepack.Proofs.DepthGuard
import Wirepack.Proofs.ThroughJson

/-!
# What a valid schema carries

A schema is checked field by field: each may have 64 array layers, and no message may contain itself.
The codec counts arrays and messages together, along every chain of them, and gives up past 64. The
first bound does not give the second, so a schema may pass and have types too deep for the codec. They
are the only ones it fails for. Every type of a valid schema has values, one of them as deep as the type,
so a type carries all of its values exactly if no chain of more than 64 layers stands below it.
-/

namespace Wirepack
set_option autoImplicit false

theorem Schema.Valid.knows {schema : Schema} (valid : schema.Valid) {d : Definition} (member : d ∈ schema.messages)
    {f : Field} (inside : f ∈ d.fields) : schema.Knows f.type :=
  fun target mentions => valid.known d.name target ⟨d, member, rfl, f, inside, mentions⟩

theorem Schema.Built.exists_get? {schema : Schema} (built : schema.Built) {name : String}
    (knows : schema.Knows (.message name)) : ∃ d, schema.get? name = some d := by
  obtain ⟨d, member, named⟩ := knows name (.message name)
  exact ⟨d, built.get?_eq_some_iff.2 ⟨member, named⟩⟩

instance : Inhabited Json := ⟨.null⟩

theorem zip_map_fields {α : Type} (declared : List Field) (entry : Field → α) :
    declared.zip (declared.map entry) = declared.map fun f => (f, entry f) := by
  simpa using List.zip_map' (f := id) (g := entry) (l := declared)

namespace Json.StandsFor

variable {lookup : String → Option Definition}

/-- An object with a member for each field stands for the record of what they stand for. -/
theorem fields {name : String} {d : Definition} {json : Field → Json} {value : Field → Value}
    (found : lookup name = some d) (different : (d.fields.map Field.name).Nodup)
    (each : ∀ f ∈ d.fields, (json f).StandsFor lookup f.type (value f)) :
    (Json.object (d.fields.map fun f => (f.name, json f))).StandsFor lookup (.message name)
      (.record (d.fields.map fun f => (f.name, value f))) := by
  have has : ∀ f ∈ d.fields, Json.member? (d.fields.map fun f => (f.name, json f)) f.name = some (json f) := by
    intro f member
    have paired : (f, f.name, json f) ∈ d.fields.zip (d.fields.map fun f => (f.name, json f)) := by
      rw [zip_map_fields]
      exact List.mem_map_of_mem member
    exact Json.member?_of_mem_zip (by simp) different paired
  refine .object found (by simp) (fun f member => by simp [has f member]) fun pair paired part there => ?_
  rw [zip_map_fields] at paired
  obtain ⟨f, member, rfl⟩ := List.mem_map.1 paired
  cases (has f member).symm.trans there
  exact each f member

/-- Scalars have a value each, and an array may be empty: a type can lack values only if it is a message. -/
theorem exists_of_messages {type : FieldType}
    (messages : ∀ name, type = .message name → ∃ (json : Json) (v : Value), json.StandsFor lookup type v) :
    ∃ (json : Json) (v : Value), json.StandsFor lookup type v := by
  cases type with
  | int => exact ⟨.ofInt 0, .int 0, .int (n := 0) rfl rfl⟩
  | long => exact ⟨.ofInt 0, .long 0, .long rfl⟩
  | float => exact ⟨.ofInt 0, _, .float rfl⟩
  | double => exact ⟨.ofInt 0, _, .double rfl⟩
  | bool => exact ⟨_, _, .bool false⟩
  | string => exact ⟨_, _, .string ""⟩
  | repeated item => exact ⟨.array [], .array [], .array rfl (by simp)⟩
  | message name => exact messages name rfl

end Json.StandsFor

namespace Schema

variable {schema : Schema}

/-- No chain of messages is endless, so every message of a valid schema has a value. Induction on the
chains of references. -/
theorem Valid.exists_record (valid : schema.Valid) (built : schema.Built) {name : String}
    (grounded : schema.Grounded name) (knows : schema.Knows (.message name)) :
    ∃ (json : Json) (v : Value), json.StandsFor schema.get? (.message name) v := by
  induction grounded with
  | intro name _ ih =>
    obtain ⟨d, found⟩ := built.exists_get? knows
    obtain ⟨member, named⟩ := built.get?_eq_some_iff.1 found
    have each : ∀ f ∈ d.fields, ∃ (json : Json) (v : Value), json.StandsFor schema.get? f.type v := by
      intro f inside
      refine Json.StandsFor.exists_of_messages fun target same => ?_
      have mentions : f.type.Mentions target := same ▸ .message target
      have below := valid.knows member inside
      rw [same] at below ⊢
      exact ih target ⟨d, member, named, f, inside, mentions⟩ below
    choose! json value stands using each
    exact ⟨_, _, .fields found (valid.distinct d member) stands⟩

theorem Valid.exists_value (valid : schema.Valid) (built : schema.Built) (grounded : ∀ name, schema.Grounded name)
    {type : FieldType} (knows : schema.Knows type) : ∃ (json : Json) (v : Value), json.StandsFor schema.get? type v := by
  refine Json.StandsFor.exists_of_messages fun name same => ?_
  rw [same] at knows ⊢
  exact valid.exists_record built (grounded name) knows

/-- A type of a valid schema that goes deeper than `levels` has a value that does. Induction on the levels. -/
theorem Valid.exists_deep (valid : schema.Valid) (built : schema.Built) (grounded : ∀ name, schema.Grounded name)
    {type : FieldType} (knows : schema.Knows type) {levels : Nat} (deep : ¬ type.Layered schema.get? levels) :
    ∃ (json : Json) (v : Value), json.StandsFor schema.get? type v ∧ ¬ v.Within levels := by
  induction levels generalizing type with
  | zero =>
    obtain ⟨json, v, stands⟩ := valid.exists_value built grounded knows
    refine ⟨json, v, stands, ?_⟩
    cases stands with
    | array _ _ | object _ _ _ _ => exact id
    | _ => exact absurd trivial deep
  | succ levels ih =>
    cases type with
    | repeated item =>
      obtain ⟨json, v, stands, below⟩ := ih (fun name mentions => knows name (.repeated mentions)) deep
      exact ⟨.array [json], .array [v], .array rfl (by simpa using stands), fun within => below (within v (by simp))⟩
    | message name =>
      rw [FieldType.Layered] at deep
      push Not at deep
      obtain ⟨d, found, f, inside, deeper⟩ := deep
      obtain ⟨member, -⟩ := built.get?_eq_some_iff.1 found
      -- the field that goes too deep gets a value that does, and every other field any value
      have each : ∀ g ∈ d.fields, ∃ (json : Json) (v : Value), json.StandsFor schema.get? g.type v ∧
          (g = f → ¬ v.Within levels) := by
        intro g inside
        have below := valid.knows member inside
        by_cases same : g = f
        · subst same
          obtain ⟨json, v, stands, past⟩ := ih below deeper
          exact ⟨json, v, stands, fun _ => past⟩
        · obtain ⟨json, v, stands⟩ := valid.exists_value built grounded below
          exact ⟨json, v, stands, fun equal => absurd equal same⟩
      choose! json value stands past using each
      refine ⟨_, _, .fields found (valid.distinct d member) stands, fun within => past f inside rfl ?_⟩
      exact within (f.name, value f) (List.mem_map_of_mem inside)
    | _ => exact absurd trivial deep

end Schema

namespace Message

variable {schema : Schema} {type : String}

/-- Encoding or decoding something, as a whole or as a part of other data, fails with the fault. -/
inductive Fails (schema : Schema) (type : String) : Fault → Prop where
  | encoding {config : Config} {record : Record} {fault : Fault}
      (run : encode schema config type record = .error fault) : Fails schema type fault
  | appending {record : Record} {b after : Buffer} {fault : Fault}
      (run : append schema type record b = .error fault after) : Fails schema type fault
  | decoding {config : Config} {data : Bytes} {fault : Fault}
      (run : decode schema config type data = .error fault) : Fails schema type fault
  | readingBody {limit : Nat} {c after : Cursor} {fault : Fault}
      (run : readBody schema limit type c = .error fault after) : Fails schema type fault

/-- What holds of the faults of encoding and of reading the fields holds of every fault about the type,
if it holds of those that no field has: an unknown type, another version, bad bytes. -/
theorem Fails.passes {P : Fault → Prop}
    (written : ∀ config record fault, encode schema config type record = .error fault → P fault)
    (fields : ∀ limit d, schema.get? type = some d →
      Assembled limit P (readFields (readValue schema limit Schema.maxDepth) d))
    (unknown : P (.typeNotFound type)) (mismatch : ∀ expected actual, P (.versionMismatch expected actual))
    (bad : ∀ fault : Fault, fault.isPayloadFault = true → P fault) {fault : Fault}
    (fails : Fails schema type fault) : P fault := by
  cases fails with
  | encoding run => exact written _ _ _ run
  | @appending record b after fault run =>
    rcases append_cases schema type record with ⟨d, data, -, appends, -⟩ | ⟨other, appends, encodes⟩
    · obtain ⟨_, again, -⟩ := appends b
      cases again.symm.trans run
    · obtain ⟨_, again, -⟩ := appends b
      cases again.symm.trans run
      exact written ⟨0, 0⟩ record _ (encodes _)
  | @decoding config data fault run =>
    have whole : Assembled config.maxCollection P (read schema config.maxCollection type) :=
      require_bind_assembled unknown fun d found =>
        (Assembled.version mismatch d.version).bind fun _ => fields _ d found
    rw [decode] at run
    split at run
    · cases run
    · next stopped =>
      cases run
      exact (whole.fault_cases stopped).elim id (bad _)
  | @readingBody limit c after fault run =>
    have body : Assembled limit P (readBody schema limit type) := require_bind_assembled unknown (fields limit)
    exact (body.fault_cases run).elim id (bad _)

/-- The only defect of the schema that encoding and decoding ever report is depth. -/
theorem Fails.eq_tooDeep {name : String} {defect : Schema.Defect}
    (fails : Fails schema type (.invalidSchema name defect)) : defect = .tooDeep := by
  let onlyDepth (fault : Fault) : Prop := ∀ name defect, fault = .invalidSchema name defect → defect = .tooDeep
  suffices only : onlyDepth (.invalidSchema name defect) from only name defect rfl
  refine fails.passes (P := onlyDepth) ?_ ?_ ?_ ?_ ?_
  · rintro config record _ failed name defect rfl
    cases found : schema.get? type with
    | none =>
      rw [encode_of_unknown found] at failed
      cases failed
    | some d =>
      obtain ⟨place, -, wrong⟩ := wrong_of_encode found failed
      cases wrong with
      | tooDeep _ _ _ => rfl
  · intro limit d _
    refine (readFields_assembled (readValue_assembled schema limit Schema.maxDepth) d).weaken ?_
    rintro _ refuses name defect rfl
    cases refuses with
    | tooDeep _ => rfl
  · rintro _ _ ⟨⟩
  · rintro _ _ _ _ ⟨⟩
  · rintro _ bad name defect rfl
    cases bad

theorem Fails.shallow
    (layered : ∀ d, schema.get? type = some d → ∀ f ∈ d.fields, f.type.Layered schema.get? Schema.maxDepth)
    {fault : Fault} (fails : Fails schema type fault) : fault.Shallow := by
  refine fails.passes ?_ ?_ ?_ ?_ ?_
  · rintro config record _ failed name rfl
    exact encode_ne_tooDeep layered config record name failed
  · exact fun limit d found => readFields_of_shallow fun f member => readValue_of_layered (layered d found f member)
  · rintro _ ⟨⟩
  · rintro _ _ _ ⟨⟩
  · exact fun fault bad => Fault.shallow_of_isPayloadFault bad

/-- A record of its type is encoded unless it is too deep. -/
theorem encode_by_depth (distinct : ∀ d ∈ schema.messages, (d.fields.map Field.name).Nodup) {record : Record}
    (typed : (Value.record record).Typed schema.get? (.message type)) (config : Config) :
    ((∀ field ∈ record, field.2.Within Schema.maxDepth) → ∃ payload, encode schema config type record = .ok payload) ∧
    ((¬ ∀ field ∈ record, field.2.Within Schema.maxDepth) →
      ∃ name, encode schema config type record = .error (.tooDeep name)) := by
  constructor
  · intro within
    obtain ⟨d, found⟩ : ∃ d, schema.get? type = some d := by
      cases typed with
      | record found _ _ => exact ⟨_, found⟩
    exact ⟨_, encode_of_within distinct found typed within config⟩
  · intro deep
    rcases encode_of_typed distinct typed config with ⟨payload, encoded⟩ | tooDeep
    · obtain ⟨d, -, -, within, -⟩ := encode_wrote encoded
      have same := declared_of_typed distinct typed
      rw [declared] at same
      rw [same] at within
      exact absurd within deep
    · exact tooDeep

/-- Below a type with too long a chain there is a value that goes all the way down, and it is refused. -/
theorem exists_refused (built : schema.Built) (passed : schema.validate = .ok ())
    (deep : ¬ ∀ d, schema.get? type = some d → ∀ f ∈ d.fields, f.type.Layered schema.get? Schema.maxDepth) :
    ∃ json record, ofJson schema type json = .ok record ∧
      ∀ config, ∃ name, encode schema config type record = .error (.tooDeep name) := by
  have valid := built.valid_of_validate passed
  obtain ⟨-, -, rings⟩ := Schema.validate_eq_ok.1 passed
  have grounded := Schema.grounded_of_checkRings built rings
  have knows : schema.Knows (.message type) := by
    push Not at deep
    obtain ⟨d, found, -⟩ := deep
    obtain ⟨member, rfl⟩ := built.get?_eq_some_iff.1 found
    exact Schema.knows_of_mem member
  have whole : ¬ (FieldType.message type).Layered schema.get? (Schema.maxDepth + 1) := deep
  obtain ⟨json, v, stands, past⟩ := valid.exists_deep built grounded knows whole
  cases v with
  | record record =>
    exact ⟨json, record, (ofJson_eq_ok valid.distinct).2 stands,
      fun config => (encode_by_depth valid.distinct stands.typed config).2 past⟩
  | _ => cases stands

/-- Of what JSON gives, a valid schema carries exactly the messages of at most 64 arrays and records inside one
another, and refuses the others for their depth. It reports no other defect of itself, and neither
refuses a message nor reports this one exactly if no chain of more than 64 layers stands below the type. -/
theorem carries_iff_layered (built : schema.Built) (passed : schema.validate = .ok ()) (type : String) :
    (∀ json record, ofJson schema type json = .ok record → ∀ config,
      ((∀ field ∈ record, field.2.Within 64) → ∃ payload, encode schema config type record = .ok payload) ∧
      ((¬ ∀ field ∈ record, field.2.Within 64) →
        ∃ name, encode schema config type record = .error (.invalidSchema name .tooDeep))) ∧
    (∀ name defect, Fails schema type (.invalidSchema name defect) → defect = .tooDeep) ∧
    ((∀ json record, ofJson schema type json = .ok record →
        ∀ config, ∃ payload, encode schema config type record = .ok payload) ↔
      ∀ d, schema.get? type = some d → ∀ f ∈ d.fields, f.type.Layered schema.get? 64) ∧
    ((∀ name defect, ¬ Fails schema type (.invalidSchema name defect)) ↔
      ∀ d, schema.get? type = some d → ∀ f ∈ d.fields, f.type.Layered schema.get? 64) := by
  have distinct := (built.valid_of_validate passed).distinct
  refine ⟨fun json record given config => ?_, fun name defect fails => fails.eq_tooDeep, ⟨fun carried => ?_, ?_⟩,
    ⟨fun sound => ?_, ?_⟩⟩
  · exact encode_by_depth distinct ((ofJson_eq_ok distinct).1 given).typed config
  · by_contra deep
    obtain ⟨json, record, given, refused⟩ := exists_refused built passed deep
    obtain ⟨payload, encoded⟩ := carried json record given ⟨0, 0⟩
    obtain ⟨name, failed⟩ := refused ⟨0, 0⟩
    cases encoded.symm.trans failed
  · intro layered json record given config
    have typed := ((ofJson_eq_ok distinct).1 given).typed
    have whole : (FieldType.message type).Layered schema.get? (Schema.maxDepth + 1) := layered
    exact (encode_by_depth distinct typed config).1 (typed.within whole)
  · by_contra deep
    obtain ⟨json, record, -, refused⟩ := exists_refused built passed deep
    obtain ⟨name, failed⟩ := refused ⟨0, 0⟩
    exact sound name .tooDeep (.encoding failed)
  · intro layered name defect fails
    cases fails.eq_tooDeep
    exact fails.shallow layered name rfl

/-- A field of as many array layers as given, of a message with one field of its own. -/
def rack (layers : Nat) : Schema :=
  ⟨"1", [⟨"Rack", "1", [⟨"slots", Nat.repeat FieldType.repeated layers (.message "Slot")⟩]⟩,
    ⟨"Slot", "1", [⟨"n", .int⟩]⟩]⟩

/-- The JSON of a rack with one slot. -/
def filledJson (layers : Nat) : Json :=
  .object [("slots", Nat.repeat (fun json => .array [json]) layers (.object [("n", .ofInt 3)]))]

/-- The rack with one slot. -/
def filled (layers : Nat) : Record :=
  [("slots", Nat.repeat (fun v => .array [v]) layers (.record [("n", .int 3)]))]

theorem rack_built (layers : Nat) : (rack layers).Built := by
  have added : (rack layers).messages.foldlM Schema.add (Schema.empty "1") = .ok (rack layers) := by rfl
  exact (Schema.Built.empty "1").addAll added

theorem rack_layered {d : Definition} (found : (rack 63).get? "Rack" = some d) :
    ∀ f ∈ d.fields, f.type.Layered (rack 63).get? 64 := by
  cases found
  have slot : (FieldType.message "Slot").Layered (rack 63).get? 1 := by
    rintro d ⟨⟩
    simp [FieldType.Layered]
  simpa using layered_repeat slot 63

/-- Layers around a value stand for as many around its JSON. -/
theorem standsFor_repeat {lookup : String → Option Definition} {type : FieldType} {json : Json} {v : Value}
    (stands : json.StandsFor lookup type v) (layers : Nat) :
    (Nat.repeat (fun json => .array [json]) layers json).StandsFor lookup (Nat.repeat FieldType.repeated layers type)
      (Nat.repeat (fun v => .array [v]) layers v) := by
  induction layers with
  | zero => exact stands
  | succ layers ih => exact .array rfl (List.forall_mem_cons.2 ⟨ih, by simp⟩)

theorem filledJson_standsFor (layers : Nat) :
    (filledJson layers).StandsFor (rack layers).get? (.message "Rack") (.record (filled layers)) := by
  have slot : (rack layers).get? "Slot" = some ⟨"Slot", "1", [⟨"n", .int⟩]⟩ := rfl
  have counted : (Json.object [("n", .ofInt 3)]).StandsFor (rack layers).get? (.message "Slot")
      (.record [("n", .int 3)]) := by
    refine .object slot rfl (by decide) (List.forall_mem_cons.2 ⟨?_, by simp⟩)
    rintro part ⟨⟩
    exact .int rfl rfl
  refine .object rfl rfl (List.forall_mem_cons.2 ⟨rfl, by simp⟩) (List.forall_mem_cons.2 ⟨?_, by simp⟩)
  rintro part ⟨⟩
  exact standsFor_repeat counted layers

/-- With one layer less than the check allows, a rack carries all that it is given. -/
theorem rack_carries : (rack 63).Built ∧ (rack 63).validate = .ok () ∧
    (∀ json record, ofJson (rack 63) "Rack" json = .ok record →
      ∀ config, ∃ payload, encode (rack 63) config "Rack" record = .ok payload) ∧
    ∀ name defect, ¬ Fails (rack 63) "Rack" (.invalidSchema name defect) := by
  have passed : (rack 63).validate = .ok () := by cbv
  obtain ⟨-, -, carried, sound⟩ := carries_iff_layered (rack_built 63) passed "Rack"
  exact ⟨rack_built 63, passed, carried.2 fun d => rack_layered, sound.2 fun d => rack_layered⟩

/-- With as many layers as the check allows, it does not: the slots themselves are one layer more. -/
theorem rack_too_deep : (rack 64).Built ∧ (rack 64).validate = .ok () ∧
    ofJson (rack 64) "Rack" (filledJson 64) = .ok (filled 64) ∧
    encode (rack 64) ⟨0, 0⟩ "Rack" (filled 64) = .error (.invalidSchema "Slot" .tooDeep) := by
  refine ⟨rack_built 64, by cbv, (ofJson_eq_ok (by decide)).2 (filledJson_standsFor 64), ?_⟩
  set_option maxRecDepth 4000 in rfl

end Message

end Wirepack
