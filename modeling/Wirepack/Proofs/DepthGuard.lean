import Wirepack.Proofs.Canonical
import Wirepack.Proofs.CursorRuns
import Wirepack.Proofs.FamilySchema
import Wirepack.Proofs.Layers
import Wirepack.Proofs.Places

/-!
# The limit on depth

A message may contain itself, so nothing in a schema bounds how deep its values are; both directions
count levels as they go down. The count is exact on either side: nothing deeper than the limit gets
through, and where the types themselves go no deeper, the limit never shows, whatever the message or
the payload.
-/

namespace Wirepack
set_option autoImplicit false

/-- Each level is one array or record more. -/
theorem Value.within_hereditary (limit : Nat) : Hereditary limit fun levels v => v.Within levels where
  scalar levels v simple := by
    cases v with
    | array _ | record _ => cases simple
    | _ => simp [Within]
  array levels items _ all := all
  record levels fields all := all

namespace Cursor

variable {c after : Cursor} {fault : Fault}

theorem isPayloadFault_of_varint (run : varint c = .error fault after) : fault.isPayloadFault = true := by
  obtain ⟨-, -, ⟨-, rfl⟩ | ⟨-, rfl⟩⟩ := Varint.marked_of_varint run
  · rfl
  · rfl

theorem isPayloadFault_of_length (run : length c = .error fault after) : fault.isPayloadFault = true := by
  rw [length_eq] at run
  split at run
  · split at run
    · cases run
      rfl
    · cases run
  · next failed =>
    cases run
    rcases Run.bind_eq_error.1 failed with stopped | ⟨u, middle, -, stopped⟩
    · exact isPayloadFault_of_varint stopped
    · cases stopped

theorem isPayloadFault_of_count {limit : Nat} (run : count limit c = .error fault after) :
    fault.isPayloadFault = true := by
  rw [count_eq] at run
  split at run
  · split at run
    · cases run
      rfl
    · cases run
  · next failed =>
    cases run
    exact isPayloadFault_of_length failed

theorem isPayloadFault_of_string (run : string c = .error fault after) : fault.isPayloadFault = true := by
  rw [string_eq] at run
  split at run
  · split at run
    · split at run
      · cases run
      · cases run
        rfl
    · next failed =>
      cases run
      obtain ⟨-, rfl, -⟩ := bytes_eq_error.1 failed
      rfl
  · next failed =>
    cases run
    exact isPayloadFault_of_length failed

end Cursor

/-- A read fails by what it refuses, or because the payload is bad. Induction on the items. -/
theorem Assembled.fault_cases {α : Type} {limit : Nat} {refused : Fault → Prop} {read : Read α}
    (assembled : Assembled limit refused read) {c after : Cursor} {fault : Fault}
    (run : read c = .error fault after) : refused fault ∨ fault.isPayloadFault = true := by
  induction assembled generalizing c after with
  | pure a => cases run
  | refuse reason =>
    cases run
    exact .inl reason
  | byte =>
    obtain ⟨position, _ | ⟨first, rest⟩⟩ := c
    · cases run
      exact .inr rfl
    · cases run
  | bytes count =>
    obtain ⟨-, rfl, -⟩ := Cursor.bytes_eq_error.1 run
    exact .inr rfl
  | varint => exact .inr (Cursor.isPayloadFault_of_varint run)
  | length => exact .inr (Cursor.isPayloadFault_of_length run)
  | count => exact .inr (Cursor.isPayloadFault_of_count run)
  | string => exact .inr (Cursor.isPayloadFault_of_string run)
  | bind start goesOn first next =>
    rcases Run.bind_eq_error.1 run with stopped | ⟨a, middle, -, stopped⟩
    · exact first stopped
    · exact next a stopped

/-- The fault is about something else than depth. -/
def Fault.Shallow (fault : Fault) : Prop := ∀ name, fault ≠ .tooDeep name

theorem Fault.shallow_of_isPayloadFault {fault : Fault} (bad : fault.isPayloadFault = true) : fault.Shallow := by
  rintro name rfl
  cases bad

namespace Message

variable {schema : Schema} {limit : Nat}

theorem readFields_of_shallow {read : FieldType → Read Value} {d : Definition}
    (each : ∀ f ∈ d.fields, Assembled limit Fault.Shallow (read f.type)) :
    Assembled limit Fault.Shallow (readFields read d) :=
  (Assembled.mapM fun f member => (each f member).map (f.name, ·)).map Keyed.ofList

/-- Where the type goes no deeper than the levels left, the levels are never used up. Induction on the
levels left. -/
theorem readValue_of_layered {levels : Nat} {type : FieldType} (layered : type.Layered schema.get? levels) :
    Assembled limit Fault.Shallow (readValue schema limit levels type) := by
  induction levels using Nat.strongRecOn generalizing type with
  | ind levels ih =>
    cases type with
    | int => rw [readValue]; exact Assembled.int.map Value.int
    | long => rw [readValue]; exact Assembled.long.map Value.long
    | float => rw [readValue]; exact Assembled.float.map Value.float
    | double => rw [readValue]; exact Assembled.double.map Value.double
    | bool => rw [readValue]; exact Assembled.bool.map Value.bool
    | string => rw [readValue]; exact Assembled.string.map Value.string
    | repeated item =>
      obtain _ | below := levels
      · exact layered.elim
      · rw [readValue]
        have element := ih below (Nat.lt_succ_self below) layered
        exact Assembled.count.bind fun count => (element.times count).map Value.array
    | message name =>
      obtain _ | below := levels
      · exact layered.elim
      · rw [readValue]
        cases found : schema.get? name with
        | none =>
          simp only [Schema.require, found]
          exact .refuse (by rintro _ ⟨⟩)
        | some d =>
          simp only [Schema.require, found]
          have fields := readFields_of_shallow fun f member =>
            ih below (Nat.lt_succ_self below) (layered d found f member)
          exact fields.map Value.record

theorem require_bind_assembled {α : Type} {type : String} {refused : Fault → Prop} {next : Definition → Read α}
    (unknown : refused (.typeNotFound type))
    (goesOn : ∀ d, schema.get? type = some d → Assembled limit refused (next d)) :
    Assembled limit refused (MonadExcept.ofExcept (schema.require type) >>= next) := by
  cases found : schema.get? type with
  | none =>
    simp only [Schema.require, found]
    exact .refuse unknown
  | some d =>
    simp only [Schema.require, found]
    exact goesOn d found

theorem read_of_layered {type : String}
    (layered : ∀ d, schema.get? type = some d → ∀ f ∈ d.fields, f.type.Layered schema.get? Schema.maxDepth) :
    Assembled limit Fault.Shallow (read schema limit type) := by
  refine require_bind_assembled (by rintro _ ⟨⟩) fun d found => ?_
  have tag : Assembled limit Fault.Shallow (Cursor.version d.version) :=
    .version (by rintro _ _ _ ⟨⟩) d.version
  exact tag.bind fun _ => readFields_of_shallow fun f member => readValue_of_layered (layered d found f member)

end Message

/-- Steps to an array or a record are fewer than the layers of the type. -/
theorem Value.Leads.length_lt {lookup : String → Option Definition} {outer inner : FieldType} {v part : Value}
    {steps : List Step} (leads : v.Leads lookup outer steps inner part) {levels : Nat}
    (layered : outer.Layered lookup levels) (compound : inner.isScalar = false) : steps.length < levels := by
  induction leads generalizing levels with
  | here type v =>
    cases type with
    | repeated _ | message _ =>
      obtain _ | below := levels
      · exact layered.elim
      · exact Nat.succ_pos below
    | _ => cases compound
  | index there below ih =>
    obtain _ | levels := levels
    · exact layered.elim
    · exact Nat.succ_lt_succ (ih layered compound)
  | field found member present below ih =>
    obtain _ | levels := levels
    · exact layered.elim
    · exact Nat.succ_lt_succ (ih (layered _ found _ member) compound)

namespace Message

variable {schema : Schema} {type : String}

theorem decode_within {config : Config} {data : Bytes} {record : Record}
    (decoded : decode schema config type data = .ok record) : ∀ field ∈ record, field.2.Within Schema.maxDepth := by
  rw [decode] at decoded
  split at decoded
  · next after run =>
    cases decoded
    obtain ⟨taken, -, within⟩ := read_keeps (Value.within_hereditary _) schema type _ after record run
    exact within
  · cases decoded

theorem decode_ne_tooDeep
    (layered : ∀ d, schema.get? type = some d → ∀ f ∈ d.fields, f.type.Layered schema.get? Schema.maxDepth)
    (config : Config) (data : Bytes) (name : String) : decode schema config type data ≠ .error (.tooDeep name) := by
  intro failed
  rw [decode] at failed
  split at failed
  · cases failed
  · next stopped =>
    cases failed
    rcases (read_of_layered layered).fault_cases stopped with shallow | bad
    · exact shallow name rfl
    · exact Fault.shallow_of_isPayloadFault bad name rfl

/-- A message is refused for something that is wrong at one of its places. -/
theorem wrong_of_encode {d : Definition} (found : schema.get? type = some d) {config : Config} {record : Record}
    {fault : Fault} (failed : encode schema config type record = .error fault) :
    ∃ place ∈ recordPlaces schema .top type record, place.Wrong schema fault := by
  have first := refusal_encode found config record
  rw [failed] at first
  obtain ⟨place, member, wrong⟩ := List.exists_of_findSome?_eq_some first.symm
  exact ⟨place, member, Place.wrong_of_fault? wrong⟩

theorem encode_ne_tooDeep
    (layered : ∀ d, schema.get? type = some d → ∀ f ∈ d.fields, f.type.Layered schema.get? Schema.maxDepth)
    (config : Config) (record : Record) (name : String) : encode schema config type record ≠ .error (.tooDeep name) := by
  intro failed
  cases found : schema.get? type with
  | none =>
    rw [encode_of_unknown found] at failed
    cases failed
  | some d =>
    obtain ⟨place, member, wrong⟩ := wrong_of_encode found failed
    cases wrong with
    | tooDeep compound deep =>
      obtain ⟨-, leads⟩ := held_mem_recordPlaces.1 member
      have whole : (FieldType.message type).Layered schema.get? (Schema.maxDepth + 1) := layered
      have less := leads.length_lt whole compound
      omega

/-- No message that decoding gives, and no declared part of a message that encoding takes, has more than
64 arrays and records inside one another; and where no value of the type can have more, neither ever
fails for depth. -/
theorem depth_guard_exact (schema : Schema) (type : String) :
    (∀ config data record, decode schema config type data = .ok record → ∀ field ∈ record, field.2.Within 64) ∧
    (∀ config record payload, encode schema config type record = .ok payload →
      ∀ field ∈ declaredRecord schema type record, field.2.Within 64) ∧
    ((∀ d, schema.get? type = some d → ∀ f ∈ d.fields, f.type.Layered schema.get? 64) →
      (∀ config record name, encode schema config type record ≠ .error (.tooDeep name)) ∧
      ∀ config data name, decode schema config type data ≠ .error (.tooDeep name)) := by
  refine ⟨fun config data record decoded => decode_within decoded, fun config record payload encoded => ?_,
    fun layered => ⟨encode_ne_tooDeep layered, decode_ne_tooDeep layered⟩⟩
  obtain ⟨d, -, -, within, -⟩ := encode_wrote encoded
  exact within

/-- A message of one field, of arrays in arrays. -/
def nest (layers : Nat) : Schema :=
  ⟨"1", [⟨"Nest", "s", [⟨"at", Nat.repeat FieldType.repeated layers .int⟩]⟩]⟩

/-- The message of a nest that holds one int. -/
def nested (layers : Nat) : Record :=
  [("at", Nat.repeat (fun v => .array [v]) layers (.int 3))]

theorem layered_repeat {lookup : String → Option Definition} {base : FieldType} {below : Nat}
    (layered : base.Layered lookup below) (layers : Nat) :
    (Nat.repeat FieldType.repeated layers base).Layered lookup (below + layers) := by
  induction layers with
  | zero => exact layered
  | succ layers ih => exact ih

/-- The message that contains itself is held to the limit, and arrays as deep as the limit get through. -/
theorem depth_guard_nest :
    encode node ⟨0, 0⟩ "Node" tree = .ok [4, 110, 49, 216, 4, 2, 14, 0] ∧
      (∀ field ∈ declaredRecord node "Node" tree, field.2.Within 64) ∧
      decode (nest 64) ⟨0, 1⟩ "Nest" ([2, 115] ++ List.replicate 64 2 ++ [6]) = .ok (nested 64) ∧
      (∀ field ∈ nested 64, field.2.Within 64) ∧
      encode (nest 64) ⟨0, 0⟩ "Nest" (nested 65) ≠ .error (.tooDeep "at") := by
  have encoded : encode node ⟨0, 0⟩ "Node" tree = .ok [4, 110, 49, 216, 4, 2, 14, 0] := rfl
  have decoded : decode (nest 64) ⟨0, 1⟩ "Nest" ([2, 115] ++ List.replicate 64 2 ++ [6]) = .ok (nested 64) := by
    set_option maxRecDepth 4000 in rfl
  have layered : ∀ d, (nest 64).get? "Nest" = some d → ∀ f ∈ d.fields, f.type.Layered (nest 64).get? 64 := by
    intro d found
    cases found
    have bare : FieldType.int.Layered (nest 64).get? 0 := trivial
    simpa using layered_repeat bare 64
  obtain ⟨-, accepted, -⟩ := depth_guard_exact node "Node"
  obtain ⟨given, -, shallow⟩ := depth_guard_exact (nest 64) "Nest"
  exact ⟨encoded, accepted _ _ _ encoded, decoded, given _ _ _ decoded, (shallow layered).1 _ _ _⟩

end Message

end Wirepack
