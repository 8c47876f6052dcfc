import Wirepack.Message.Json
import Wirepack.Proofs.TypedReading

/-!
# Conversion to and from JSON, part by part

Both conversions go through the elements of an array, or find for each declared field the part of the
message or object that has its name, and convert part after part. These lemmas say when that succeeds
and with what, so that later proofs need not open the conversions.
-/

namespace Wirepack.Message
set_option autoImplicit false

/-- What `part` gives for each field, under the field's name. -/
def eachField {α : Type} (part : Field → Except Fault α) (fields : List Field) : Except Fault (Keyed α) :=
  fields.mapM fun f => do return (f.name, ← part f)

theorem eachField_eq_ok {α : Type} {part : Field → Except Fault α} {fields : List Field} {entries : Keyed α} :
    eachField part fields = .ok entries ↔
      entries.map Prod.fst = fields.map Field.name ∧ ∀ pair ∈ fields.zip entries, part pair.1 = .ok pair.2.2 := by
  induction fields generalizing entries with
  | nil => cases entries <;> simp [eachField, pure, Except.pure]
  | cons f fields ih =>
    rw [eachField, List.mapM_cons, Check.bind_eq_ok]
    constructor
    · rintro ⟨entry, first, run⟩
      obtain ⟨a, given, ⟨⟩⟩ := Check.bind_eq_ok.1 first
      obtain ⟨others, rest, ⟨⟩⟩ := Check.bind_eq_ok.1 run
      obtain ⟨named, all⟩ := ih.1 rest
      exact ⟨by simp [named], List.forall_mem_cons.2 ⟨given, all⟩⟩
    · rintro ⟨named, all⟩
      obtain _ | ⟨⟨name, a⟩, others⟩ := entries
      · cases named
      · obtain ⟨rfl, later⟩ := List.cons.inj named
        obtain ⟨given, all⟩ := List.forall_mem_cons.1 all
        refine ⟨(f.name, a), Check.bind_eq_ok.2 ⟨a, given, rfl⟩, ?_⟩
        exact Check.bind_eq_ok.2 ⟨others, ih.2 ⟨later, all⟩, rfl⟩

theorem eachField_ok {α : Type} {part : Field → Except Fault α} {fields : List Field}
    (succeeds : ∀ f ∈ fields, ∃ a, part f = .ok a) : ∃ entries, eachField part fields = .ok entries := by
  apply Check.mapM_ok
  intro f member
  obtain ⟨a, given⟩ := succeeds f member
  exact ⟨(f.name, a), Check.bind_eq_ok.2 ⟨a, given, rfl⟩⟩

/-- Entries under different names stay as they come. -/
theorem ofList_eachField {α β : Type} {part : Field → Except Fault α} {fields : List Field}
    (distinct : (fields.map Field.name).Nodup) (make : Keyed α → β) :
    (do return make (Keyed.ofList (← eachField part fields)) : Except Fault β) =
      do return make (← eachField part fields) := by
  cases given : eachField part fields with
  | error fault => rfl
  | ok entries =>
    have kept := Keyed.ofList_of_nodup ((eachField_eq_ok.1 given).1 ▸ distinct)
    exact congrArg (fun entries => Except.ok (make entries)) kept

/-- What `convert` gives for each element, which it is told the position of; the first stands at `start`. -/
def eachItem {α β : Type} (convert : Nat → α → Except Fault β) (start : Nat) (items : List α) :
    Except Fault (List β) :=
  (items.zipIdx start).mapM fun (a, i) => convert i a

theorem eachItem_eq_ok {α β : Type} {convert : Nat → α → Except Fault β} {start : Nat} {items : List α}
    {out : List β} :
    eachItem convert start items = .ok out ↔
      items.length = out.length ∧ ∀ pair ∈ (items.zip out).zipIdx start, convert pair.2 pair.1.1 = .ok pair.1.2 := by
  induction items generalizing start out with
  | nil => cases out <;> simp [eachItem, pure, Except.pure]
  | cons a items ih =>
    rw [eachItem, List.zipIdx_cons, List.mapM_cons, Check.bind_eq_ok]
    constructor
    · rintro ⟨b, first, run⟩
      obtain ⟨others, rest, ⟨⟩⟩ := Check.bind_eq_ok.1 run
      obtain ⟨same, all⟩ := ih.1 rest
      exact ⟨by simp [same], List.forall_mem_cons.2 ⟨first, all⟩⟩
    · rintro ⟨same, all⟩
      obtain _ | ⟨b, others⟩ := out
      · cases same
      · obtain ⟨first, later⟩ := List.forall_mem_cons.1 all
        exact ⟨b, first, Check.bind_eq_ok.2 ⟨others, ih.2 ⟨Nat.succ.inj same, later⟩, rfl⟩⟩

section ToJson

/-- The value of a declared field as JSON. -/
def fieldToJson (schema : Schema) (path : Path) (d : Definition) (record : Record) (f : Field) :
    Except Fault Json :=
  match record.get? f.name with
  | none => .error (.missingField d.name f.name)
  | some v => valueToJson schema (path.field f.name) f.type v

variable {schema : Schema} {type : String} {d : Definition}

theorem itemsToJson_eq (path : Path) (item : FieldType) (start : Nat) (items : List Value) :
    itemsToJson schema path item start items =
      eachItem (fun i => valueToJson schema (path.index i) item) start items := by
  induction items generalizing start with
  | nil => rw [itemsToJson]; rfl
  | cons v rest ih =>
    rw [itemsToJson, ih, eachItem, eachItem, List.zipIdx_cons, List.mapM_cons]

theorem recordToJson_of_known (found : schema.get? type = some d) (path : Path) (record : Record) :
    recordToJson schema path type record =
      (do return .object (Keyed.ofList (← eachField (fieldToJson schema path d record) d.fields))) := by
  rw [recordToJson]
  simp only [Schema.require, found]
  refine congrArg (fun each => (do return .object (Keyed.ofList (← d.fields.mapM each)) : Except Fault Json))
    (funext fun f => ?_)
  unfold fieldToJson
  split
  · next absent =>
    rw [absent]
    rfl
  · next v present => rw [present]

theorem recordToJson_of_unknown (unknown : schema.get? type = none) (path : Path) (record : Record) :
    recordToJson schema path type record = .error (.typeNotFound type) := by
  rw [recordToJson]
  simp only [Schema.require, unknown]
  rfl

theorem fieldToJson_eq_ok {path : Path} {record : Record} {f : Field} {json : Json} :
    fieldToJson schema path d record f = .ok json ↔
      ∃ v, record.get? f.name = some v ∧ valueToJson schema (path.field f.name) f.type v = .ok json := by
  unfold fieldToJson
  cases record.get? f.name <;> simp

/-- A message becomes the object of its declared fields, each of which must be there. -/
theorem recordToJson_eq_ok (distinct : ∀ d ∈ schema.messages, (d.fields.map Field.name).Nodup) {path : Path}
    {record : Record} {json : Json} :
    recordToJson schema path type record = .ok json ↔
      ∃ d members, schema.get? type = some d ∧ json = .object members ∧
        members.map Prod.fst = d.fields.map Field.name ∧
        ∀ pair ∈ d.fields.zip members, ∃ v, record.get? pair.1.name = some v ∧
          valueToJson schema (path.field pair.1.name) pair.1.type v = .ok pair.2.2 := by
  cases found : schema.get? type with
  | none => simp [recordToJson_of_unknown found]
  | some d =>
    have different := distinct d (List.mem_of_find?_eq_some found)
    rw [recordToJson_of_known found, ofList_eachField different Json.object, Check.bind_eq_ok]
    constructor
    · rintro ⟨members, given, ⟨⟩⟩
      obtain ⟨named, all⟩ := eachField_eq_ok.1 given
      exact ⟨d, members, rfl, rfl, named, fun pair member => fieldToJson_eq_ok.1 (all pair member)⟩
    · rintro ⟨_, members, ⟨⟩, rfl, named, all⟩
      exact ⟨members, eachField_eq_ok.2 ⟨named, fun pair member => fieldToJson_eq_ok.2 (all pair member)⟩, rfl⟩

end ToJson

section OfJson

/-- The value that an object gives a declared field. -/
def fieldOfJson (schema : Schema) (path : Path) (d : Definition) (members : List (String × Json)) (f : Field) :
    Except Fault Value :=
  match Json.member? members f.name with
  | none => .error (.missingField d.name f.name)
  | some json => valueOfJson schema (path.field f.name) f.type json

variable {schema : Schema} {type : String} {d : Definition}

theorem itemsOfJson_eq (path : Path) (item : FieldType) (start : Nat) (items : List Json) :
    itemsOfJson schema path item start items =
      eachItem (fun i => valueOfJson schema (path.index i) item) start items := by
  induction items generalizing start with
  | nil => rw [itemsOfJson]; rfl
  | cons json rest ih =>
    rw [itemsOfJson, ih, eachItem, eachItem, List.zipIdx_cons, List.mapM_cons]

theorem recordOfJson_of_known (found : schema.get? type = some d) (path : Path) (members : List (String × Json)) :
    recordOfJson schema path type (.object members) =
      (do return Keyed.ofList (← eachField (fieldOfJson schema path d members) d.fields)) := by
  rw [recordOfJson]
  simp only [Schema.require, found]
  refine congrArg (fun each => (do return Keyed.ofList (← d.fields.mapM each) : Except Fault Record))
    (funext fun f => ?_)
  unfold fieldOfJson
  split
  · next absent =>
    rw [absent]
    rfl
  · next v present => rw [present]

theorem fieldOfJson_eq_ok {path : Path} {members : List (String × Json)} {f : Field} {v : Value} :
    fieldOfJson schema path d members f = .ok v ↔
      ∃ json, Json.member? members f.name = some json ∧
        valueOfJson schema (path.field f.name) f.type json = .ok v := by
  unfold fieldOfJson
  cases Json.member? members f.name <;> simp

/-- An object is a message of its type if it has all declared fields; what else it has does not matter. -/
theorem recordOfJson_eq_ok (distinct : ∀ d ∈ schema.messages, (d.fields.map Field.name).Nodup) {path : Path}
    {json : Json} {record : Record} :
    recordOfJson schema path type json = .ok record ↔
      ∃ d members, schema.get? type = some d ∧ json = .object members ∧
        record.map Prod.fst = d.fields.map Field.name ∧
        ∀ pair ∈ d.fields.zip record, ∃ part, Json.member? members pair.1.name = some part ∧
          valueOfJson schema (path.field pair.1.name) pair.1.type part = .ok pair.2.2 := by
  cases found : schema.get? type with
  | none =>
    rw [recordOfJson, Schema.require, found]
    simp [bind, Except.bind]
  | some d =>
    have different := distinct d (List.mem_of_find?_eq_some found)
    cases json with
    | object members =>
      rw [recordOfJson_of_known found, ofList_eachField different (fun record => record), Check.bind_eq_ok]
      constructor
      · rintro ⟨fields, given, ⟨⟩⟩
        obtain ⟨named, all⟩ := eachField_eq_ok.1 given
        exact ⟨d, members, rfl, rfl, named, fun pair member => fieldOfJson_eq_ok.1 (all pair member)⟩
      · rintro ⟨_, _, ⟨⟩, ⟨⟩, named, all⟩
        exact ⟨record, eachField_eq_ok.2 ⟨named, fun pair member => fieldOfJson_eq_ok.2 (all pair member)⟩, rfl⟩
    | _ =>
      rw [recordOfJson, Schema.require, found]
      simp [bind, Except.bind]

end OfJson

end Wirepack.Message
