import Wirepack.Proofs.Verdicts

/-!
# The places of a message

The encoder goes through a message by its declared types and stops at the first place where something
is wrong. `places` lists where it would come if it never stopped, in the order of the wire: an array or
a record before what it holds, elements in their order, fields in declared order. What is wrong at a
place shows at the place alone. So encoding fails with the fault of the first place that has one, and
succeeds if no place has any.
-/

namespace Wirepack
set_option autoImplicit false

/-- Whether a value can stand where the type is declared, whatever it holds. -/
def FieldType.takes : FieldType → Value → Bool
  | .int, v => v.asInt?.isSome
  | .long, v => v.asLong?.isSome
  | .float, v => v.asFloat?.isSome
  | .double, v => v.asDouble?.isSome
  | .bool, v => v.asBool?.isSome
  | .string, v => v.asString?.isSome
  | .repeated _, v => v.asArray?.isSome
  | .message _, v => v.asRecord?.isSome

/-- From a value of the type `outer`, the steps lead down to `part`, where the type `inner` is declared. -/
inductive Value.Leads (lookup : String → Option Definition) :
    FieldType → Value → List Step → FieldType → Value → Prop where
  | here (type : FieldType) (v : Value) : Leads lookup type v [] type v
  | index {item inner : FieldType} {items : List Value} {i : Nat} {v part : Value} {steps : List Step}
      (there : items[i]? = some v) (below : Leads lookup item v steps inner part) :
      Leads lookup (.repeated item) (.array items) (.index i :: steps) inner part
  | field {name : String} {d : Definition} {f : Field} {record : Record} {inner : FieldType} {v part : Value}
      {steps : List Step} (found : lookup name = some d) (member : f ∈ d.fields)
      (present : record.get? f.name = some v) (below : Leads lookup f.type v steps inner part) :
      Leads lookup (.message name) (.record record) (.field f.name :: steps) inner part

namespace Message

/-- Where a value is declared. -/
inductive Place where
  /-- The value at `path`, where `type` is declared. -/
  | held (path : Path) (type : FieldType) (value : Value)
  /-- A field of a message that is declared and absent. -/
  | missing (message field : String)

mutual

/-- The place of a value, and those of all that it holds, in the order of the wire. -/
def places (schema : Schema) (path : Path) (type : FieldType) (v : Value) : List Place :=
  .held path type v :: match type, v with
    | .repeated item, .array items => itemPlaces schema path item 0 items
    | .message name, .record record => recordPlaces schema path name record
    | _, _ => []
termination_by (sizeOf v, 0)

/-- The places in the elements of an array, counted from `start`. -/
def itemPlaces (schema : Schema) (path : Path) (item : FieldType) (start : Nat) : List Value → List Place
  | [] => []
  | v :: rest => places schema (path.index start) item v ++ itemPlaces schema path item (start + 1) rest
termination_by items => (sizeOf items, 0)

/-- The places in the declared fields of a message. -/
def recordPlaces (schema : Schema) (path : Path) (type : String) (record : Record) : List Place :=
  match schema.get? type with
  | none => []
  | some d => d.fields.flatMap fun f =>
    match found : record.get? f.name with
    | none => [.missing d.name f.name]
    | some v =>
      have := Value.sizeOf_field_lt found
      places schema (path.field f.name) f.type v
termination_by (sizeOf record, 0)

end

/-- The places in one declared field of a message. -/
def fieldPlaces (schema : Schema) (path : Path) (d : Definition) (record : Record) (f : Field) : List Place :=
  match record.get? f.name with
  | none => [.missing d.name f.name]
  | some v => places schema (path.field f.name) f.type v

theorem recordPlaces_eq {schema : Schema} {type : String} {d : Definition} (found : schema.get? type = some d)
    (path : Path) (record : Record) :
    recordPlaces schema path type record = d.fields.flatMap (fieldPlaces schema path d record) := by
  rw [recordPlaces, found]
  show d.fields.flatMap _ = _
  congr 1
  funext f
  unfold fieldPlaces
  split <;> simp_all

theorem itemPlaces_eq (schema : Schema) (path : Path) (item : FieldType) (start : Nat) (items : List Value) :
    itemPlaces schema path item start items =
      (items.zipIdx start).flatMap fun (v, i) => places schema (path.index i) item v := by
  induction items generalizing start with
  | nil => rw [itemPlaces]; rfl
  | cons v rest ih => rw [itemPlaces, ih, List.zipIdx_cons, List.flatMap_cons]

theorem places_cons (schema : Schema) (path : Path) (type : FieldType) (v : Value) :
    ∃ inside, places schema path type v = .held path type v :: inside := by
  rw [places.eq_def]
  exact ⟨_, rfl⟩

theorem places_array (schema : Schema) (path : Path) (item : FieldType) (items : List Value) :
    places schema path (.repeated item) (.array items) = .held path (.repeated item) (.array items) ::
      items.zipIdx.flatMap fun (v, i) => places schema (path.index i) item v := by
  rw [places, itemPlaces_eq]

theorem places_record (schema : Schema) (path : Path) (name : String) (record : Record) :
    places schema path (.message name) (.record record) =
      .held path (.message name) (.record record) :: recordPlaces schema path name record := by
  rw [places]

theorem places_scalar {type : FieldType} (scalar : type.isScalar) (schema : Schema) (path : Path) (v : Value) :
    places schema path type v = [.held path type v] := by
  cases type with
  | repeated _ | message _ => cases scalar
  | _ =>
    rw [places]
    all_goals simp

section Members

variable {schema : Schema} {path p : Path} {inner : FieldType} {part : Value}

theorem mem_itemPlaces {item : FieldType} {items : List Value} :
    (Place.held p inner part ∈ items.zipIdx.flatMap fun (v, i) => places schema (path.index i) item v) ↔
      ∃ i v, items[i]? = some v ∧ .held p inner part ∈ places schema (path.index i) item v := by
  rw [List.mem_flatMap]
  constructor
  · rintro ⟨⟨v, i⟩, member, inside⟩
    exact ⟨i, v, List.mk_mem_zipIdx_iff_getElem?.1 member, inside⟩
  · rintro ⟨i, v, there, inside⟩
    exact ⟨(v, i), List.mk_mem_zipIdx_iff_getElem?.2 there, inside⟩

theorem mem_recordPlaces {type : String} {record : Record} :
    Place.held p inner part ∈ recordPlaces schema path type record ↔
      ∃ d f v, schema.get? type = some d ∧ f ∈ d.fields ∧ record.get? f.name = some v ∧
        .held p inner part ∈ places schema (path.field f.name) f.type v := by
  cases found : schema.get? type with
  | none =>
    rw [recordPlaces, found]
    simp
  | some d =>
    rw [recordPlaces_eq found, List.mem_flatMap]
    constructor
    · rintro ⟨f, member, inside⟩
      unfold fieldPlaces at inside
      cases present : record.get? f.name with
      | none => simp [present] at inside
      | some v =>
        rw [present] at inside
        exact ⟨d, f, v, rfl, member, present, inside⟩
    · rintro ⟨_, f, v, ⟨⟩, member, present, inside⟩
      refine ⟨f, member, ?_⟩
      rw [fieldPlaces, present]
      exact inside

/-- Every place is reached by steps along declared types. Induction on the size of the value. -/
theorem leads_of_mem_places {type : FieldType} {v : Value}
    (member : Place.held p inner part ∈ places schema path type v) :
    ∃ steps, p.steps = path.steps ++ steps ∧ v.Leads schema.get? type steps inner part := by
  induction size : sizeOf v using Nat.strongRecOn generalizing path type v with
  | ind n ih =>
    subst size
    rw [places.eq_def] at member
    rcases List.mem_cons.1 member with same | inside
    · cases same
      exact ⟨[], (List.append_nil _).symm, .here _ _⟩
    · split at inside
      · next item items =>
        rw [itemPlaces_eq] at inside
        obtain ⟨i, element, there, inside⟩ := mem_itemPlaces.1 inside
        have smaller := List.sizeOf_lt_of_mem (List.mem_of_getElem? there)
        obtain ⟨steps, whole, below⟩ := ih _ (by rw [Value.array.sizeOf_spec]; omega) inside rfl
        exact ⟨.index i :: steps, by simpa [Path.index] using whole, .index there below⟩
      · next name record =>
        obtain ⟨d, f, element, found, member, present, inside⟩ := mem_recordPlaces.1 inside
        have smaller := Value.sizeOf_field_lt present
        obtain ⟨steps, whole, below⟩ := ih _ (by rw [Value.record.sizeOf_spec]; omega) inside rfl
        exact ⟨.field f.name :: steps, by simpa [Path.field] using whole, .field found member present below⟩
      · cases inside

/-- All that steps along declared types reach is a place. -/
theorem mem_places_of_leads {type : FieldType} {v : Value} {steps : List Step}
    (leads : v.Leads schema.get? type steps inner part) (path : Path) :
    Place.held ⟨path.steps ++ steps⟩ inner part ∈ places schema path type v := by
  induction leads generalizing path with
  | here type v =>
    obtain ⟨inside, whole⟩ := places_cons schema path type v
    simp [whole]
  | index there below ih =>
    rw [places_array]
    refine List.mem_cons_of_mem _ (mem_itemPlaces.2 ⟨_, _, there, ?_⟩)
    simpa [Path.index] using ih (path.index _)
  | field found member present below ih =>
    rw [places_record]
    refine List.mem_cons_of_mem _ (mem_recordPlaces.2 ⟨_, _, _, found, member, present, ?_⟩)
    simpa [Path.field] using ih (path.field _)

/-- The places in a message are where steps from the message lead. -/
theorem held_mem_recordPlaces {type : String} {record : Record} :
    .held p inner part ∈ recordPlaces schema .top type record ↔
      p.steps ≠ [] ∧ (Value.record record).Leads schema.get? (.message type) p.steps inner part := by
  obtain ⟨steps⟩ := p
  rw [mem_recordPlaces]
  constructor
  · rintro ⟨d, f, v, found, member, present, inside⟩
    obtain ⟨rest, rfl, below⟩ := leads_of_mem_places inside
    exact ⟨List.cons_ne_nil _ _, .field found member present below⟩
  · rintro ⟨further, leads⟩
    cases leads with
    | here => exact absurd rfl further
    | field found member present below =>
      exact ⟨_, _, _, found, member, present, mem_places_of_leads below (Path.top.field _)⟩

end Members

/-- The fault of a value that the type does not take. -/
def mismatch? (path : Path) (type : FieldType) (v : Value) : Option Fault :=
  if type.takes v then none else some (.typeMismatch path type (found type v))

/-- The fault of a record at `path` whose message is not defined, or whose fields would be too deep. -/
def messageFault? (schema : Schema) (path : Path) (name : String) : Option Fault :=
  match schema.get? name with
  | none => some (.typeNotFound name)
  | some d => if Schema.maxDepth < path.steps.length then some (.tooDeep d.name) else none

/-- What is wrong at a place, if anything is. -/
def Place.fault? (schema : Schema) : Place → Option Fault
  | .missing message field => some (.missingField message field)
  | .held path (.repeated item) v =>
    if Schema.maxDepth < path.steps.length then some (.tooDeep path.render) else mismatch? path (.repeated item) v
  | .held path (.message name) v => (mismatch? path (.message name) v).or (messageFault? schema path name)
  | .held path type v => mismatch? path type v

theorem Place.fault?_scalar {type : FieldType} (scalar : type.isScalar) (schema : Schema) (path : Path) (v : Value) :
    (Place.held path type v).fault? schema = mismatch? path type v := by
  cases type with
  | repeated _ | message _ => cases scalar
  | _ => rfl

/-- What a fault at a place says of the place. -/
inductive Place.Wrong (schema : Schema) : Place → Fault → Prop where
  | missing (message field : String) : Wrong schema (.missing message field) (.missingField message field)
  | mismatch {path : Path} {type : FieldType} {v : Value} (refused : type.takes v = false) :
      Wrong schema (.held path type v) (.typeMismatch path type (found type v))
  | undefined {path : Path} {name : String} {v : Value} (unknown : schema.get? name = none) :
      Wrong schema (.held path (.message name) v) (.typeNotFound name)
  | tooDeep {path : Path} {type : FieldType} {v : Value} (compound : type.isScalar = false)
      (deep : Schema.maxDepth < path.steps.length) (name : String) :
      Wrong schema (.held path type v) (.invalidSchema name .tooDeep)

theorem Place.wrong_of_mismatch? {schema : Schema} {path : Path} {type : FieldType} {v : Value} {fault : Fault}
    (wrong : mismatch? path type v = some fault) : Wrong schema (.held path type v) fault := by
  unfold mismatch? at wrong
  split at wrong
  · cases wrong
  · next refused =>
    cases wrong
    exact .mismatch (Bool.eq_false_iff.2 refused)

theorem Place.wrong_of_fault? {schema : Schema} {place : Place} {fault : Fault}
    (wrong : place.fault? schema = some fault) : place.Wrong schema fault := by
  cases place with
  | missing message field =>
    cases wrong
    exact .missing message field
  | held path type v =>
    cases type with
    | repeated item =>
      rw [fault?] at wrong
      split at wrong
      · next deep =>
        cases wrong
        exact .tooDeep rfl deep _
      · exact wrong_of_mismatch? wrong
    | message name =>
      rcases Option.or_eq_some_iff.1 wrong with refused | ⟨-, wrong⟩
      · exact wrong_of_mismatch? refused
      · unfold messageFault? at wrong
        split at wrong
        · next unknown =>
          cases wrong
          exact .undefined unknown
        · split at wrong
          · next deep =>
            cases wrong
            exact .tooDeep rfl deep _
          · cases wrong
    | _ => exact wrong_of_mismatch? wrong

/-- The first fault among places. -/
def firstFault (schema : Schema) (places : List Place) : Option Fault :=
  places.findSome? (Place.fault? schema)

end Message

/-- The fault that an answer is, if it is one. -/
def refusal {α : Type} : Except Fault α → Option Fault
  | .ok _ => none
  | .error fault => some fault

theorem refusal_eq_none {α : Type} {answer : Except Fault α} : refusal answer = none ↔ ∃ a, answer = .ok a := by
  cases answer <;> simp [refusal]

/-- Whatever the buffer holds, the write fails with that fault, or succeeds if there is none. -/
def Decides (write : Write Unit) (fault? : Option Fault) : Prop :=
  ∀ b, refusal (outcome write b) = fault?

namespace Decides

theorem modify (f : Buffer → Buffer) : Decides (modify f) none :=
  fun _ => rfl

theorem nothing : Decides (pure ()) none :=
  fun _ => rfl

theorem throw (fault : Fault) : Decides (throw fault) (some fault) :=
  fun _ => rfl

theorem bind {first second : Write Unit} {fault? other? : Option Fault} (start : Decides first fault?)
    (rest : Decides second other?) : Decides (first >>= fun _ => second) (fault?.or other?) := by
  intro b
  rw [outcome_bind, ← start b]
  cases outcome first b with
  | error fault => rfl
  | ok middle => exact rest middle

open Message in
theorem forM {α : Type} {schema : Schema} {write : α → Write Unit} {met : α → List Place} {xs : List α}
    (each : ∀ x ∈ xs, Decides (write x) (firstFault schema (met x))) :
    Decides (xs.forM write) (firstFault schema (xs.flatMap met)) := by
  induction xs with
  | nil => exact nothing
  | cons x xs ih =>
    rw [List.flatMap_cons, firstFault, List.findSome?_append]
    exact (each x List.mem_cons_self).bind (ih fun y later => each y (List.mem_cons_of_mem x later))

theorem accepted {α : Type} {put : Buffer → α → Buffer} {path : Path} {type : FieldType} {v : Value}
    {accepted : Option α} (taken : type.takes v = accepted.isSome) :
    Decides (Message.putAccepted put path type v accepted) (Message.mismatch? path type v) := by
  rw [Message.mismatch?, taken]
  cases accepted with
  | none => exact throw _
  | some a => exact modify (put · a)

end Decides

namespace Message

variable {schema : Schema}

theorem firstFault_cons (schema : Schema) (place : Place) (places : List Place) :
    firstFault schema (place :: places) = (place.fault? schema).or (firstFault schema places) := by
  rw [firstFault, List.findSome?_cons]
  cases place.fault? schema <;> rfl

/-- Nothing inside a value is looked at if the value itself has a fault. -/
theorem throw_decides {path : Path} {type : FieldType} {v : Value} {fault : Fault}
    (wrong : (Place.held path type v).fault? schema = some fault) :
    Decides (throw fault) (firstFault schema (places schema path type v)) := by
  obtain ⟨inside, whole⟩ := places_cons schema path type v
  rw [whole, firstFault_cons, wrong, Option.some_or]
  exact .throw fault

theorem firstFault_scalar {type : FieldType} (scalar : type.isScalar) (path : Path) (v : Value) :
    firstFault schema (places schema path type v) = mismatch? path type v := by
  rw [places_scalar scalar, firstFault_cons, Place.fault?_scalar scalar]
  exact Option.or_none

theorem scalar_decides {type : FieldType} (scalar : type.isScalar) (levels : Nat) (path : Path) (v : Value) :
    Decides (putValue schema levels path type v) (firstFault schema (places schema path type v)) := by
  rw [firstFault_scalar scalar]
  cases type with
  | repeated _ | message _ => cases scalar
  | _ =>
    rw [putValue]
    exact .accepted rfl

theorem putFields_decides {put : Path → FieldType → Value → Write Unit} {type : String} {d : Definition} {path : Path}
    (each : ∀ name type v, Decides (put (path.field name) type v)
      (firstFault schema (places schema (path.field name) type v)))
    (found : schema.get? type = some d) (record : Record) :
    Decides (putFields put d path record) (firstFault schema (recordPlaces schema path type record)) := by
  rw [recordPlaces_eq found]
  refine .forM fun f _ => ?_
  unfold fieldPlaces
  cases record.get? f.name with
  | none => exact .throw _
  | some v => exact each f.name f.type v

/-- Writing a value stops at its first fault. Induction on the levels left, of which every step of the
path has taken one. -/
theorem putValue_decides {levels : Nat} {path : Path} (depth : levels + path.steps.length = Schema.maxDepth + 1)
    (type : FieldType) (v : Value) :
    Decides (putValue schema levels path type v) (firstFault schema (places schema path type v)) := by
  induction levels using Nat.strongRecOn generalizing path type v with
  | ind levels ih =>
    cases type with
    | repeated item =>
      obtain _ | below := levels
      · have deep : Schema.maxDepth < path.steps.length := by omega
        rw [putValue]
        exact throw_decides (if_pos deep)
      · have shallow : ¬ Schema.maxDepth < path.steps.length := by omega
        rw [putValue]
        cases v with
        | array items =>
          rw [places_array, firstFault_cons, Place.fault?, if_neg shallow]
          -- The count is written before the elements are looked at, which never fails.
          have counted : Decides (modify (·.putLength items.length)) none := .modify _
          refine counted.bind (.forM fun element _ => ?_)
          apply ih below (Nat.lt_succ_self below)
          simp only [Path.index, List.length_append, List.length_singleton]
          omega
        | _ => exact throw_decides (if_neg shallow)
    | message name =>
      rw [putValue]
      cases v with
      | record record =>
        rw [places_record, firstFault_cons]
        simp only [Value.asRecord?, Schema.require, Place.fault?, messageFault?]
        cases found : schema.get? name with
        | none => exact .throw _
        | some d =>
          obtain _ | below := levels
          · have deep : Schema.maxDepth < path.steps.length := by omega
            simp only [if_pos deep]
            exact .throw _
          · have shallow : ¬ Schema.maxDepth < path.steps.length := by omega
            simp only [if_neg shallow]
            apply putFields_decides _ found
            intro field type v
            apply ih below (Nat.lt_succ_self below)
            simp only [Path.field, List.length_append, List.length_singleton]
            omega
      | _ => exact throw_decides rfl
    | _ => exact scalar_decides rfl levels path v

/-- Encoding a message of a type that is defined fails with the first fault among its places, and
succeeds if there is none. -/
theorem refusal_encode {type : String} {d : Definition} (found : schema.get? type = some d) (config : Config)
    (record : Record) :
    refusal (encode schema config type record) = firstFault schema (recordPlaces schema .top type record) := by
  have body : Decides (putBody schema d record) (firstFault schema (recordPlaces schema .top type record)) :=
    putFields_decides (fun _ type v => putValue_decides rfl type v) found record
  rw [encode_eq_outcome found, ← body]
  cases outcome (putBody schema d record) _ <;> rfl

end Message

end Wirepack
