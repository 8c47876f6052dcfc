import Wirepack.Proofs.Decoding

/-!
# Values are read layer by layer

Two readers go down declared types, one by a schema and one by a family. They look messages up in
different places and count their levels differently, but at every type they do one of four things:
read a scalar, read an array or a record whose parts have one level less, or refuse. `Layer` says so
for all limits on counts at once, so that what follows from it is shown once for both readers.
-/

namespace Wirepack
set_option autoImplicit false

namespace Keyed

variable {α : Type}

theorem mem_of_mem_insert {entries : Keyed α} {key : String} {value : α} {entry : String × α}
    (member : entry ∈ entries.insert key value) : entry = (key, value) ∨ entry ∈ entries := by
  induction entries with
  | nil => exact .inl (List.mem_singleton.1 member)
  | cons first rest ih =>
    rw [insert] at member
    split at member
    · rcases List.mem_cons.1 member with rfl | later
      · exact .inl rfl
      · exact .inr (List.mem_cons_of_mem _ later)
    · rcases List.mem_cons.1 member with rfl | later
      · exact .inr List.mem_cons_self
      · exact (ih later).imp_right (List.mem_cons_of_mem _)

/-- Inserting may drop entries, and makes up none. -/
theorem mem_of_mem_ofList {entries : List (String × α)} {entry : String × α} (member : entry ∈ ofList entries) :
    entry ∈ entries := by
  refine List.foldlRecOn (motive := fun acc : Keyed α => entry ∈ acc → entry ∈ entries) entries _ (by simp) ?_ member
  intro acc kept new inside member
  rcases mem_of_mem_insert member with rfl | old
  · exact inside
  · exact kept old

end Keyed

/-- Neither an array nor a record. -/
def Value.isScalar : Value → Bool
  | .array _ | .record _ => false
  | _ => true

/-- What a reader does at a type, under each limit on counts: `read limit levels type` reads a part of
that type. The fields of a record may be brought into another order, or dropped. -/
inductive Layer (read : Nat → Nat → FieldType → Read Value) : Nat → (Nat → Read Value) → Prop where
  | scalar {levels : Nat} {α : Type} {item : Read α} {post : α → Nat → Prop} (make : α → Value)
      (simple : ∀ a, (make a).isScalar = true) (yields : Yields item post) :
      Layer read levels fun _ => do return make (← item)
  | refused {levels : Nat} (fault : Fault) : Layer read levels fun _ => throw fault
  | array {levels : Nat} (item : FieldType) : Layer read (levels + 1) fun limit => do
      let count ← Cursor.count limit
      return .array (← Cursor.times (read limit levels item) count)
  | record {levels : Nat} (declared : List Field) (arrange : Record → Record)
      (kept : ∀ record, ∀ field ∈ arrange record, field ∈ record) : Layer read (levels + 1) fun limit => do
      return .record (arrange (← readNamed (read limit levels) declared))

/-- The reader reads values of all types in layers. -/
def Layers (read : Nat → Nat → FieldType → Read Value) : Prop :=
  ∀ levels type, Layer read levels fun limit => read limit levels type

theorem Message.readValue_layers (schema : Schema) : Layers (readValue schema) := by
  intro levels type
  cases type with
  | int => simp only [readValue]; exact .scalar Value.int (fun _ => rfl) .int
  | long => simp only [readValue]; exact .scalar Value.long (fun _ => rfl) .long
  | float => simp only [readValue]; exact .scalar Value.float (fun _ => rfl) .float
  | double => simp only [readValue]; exact .scalar Value.double (fun _ => rfl) .double
  | bool => simp only [readValue]; exact .scalar Value.bool (fun _ => rfl) .bool
  | string => simp only [readValue]; exact .scalar Value.string (fun _ => rfl) .string
  | repeated item =>
    cases levels with
    | zero => simp only [readValue]; exact .refused _
    | succ below => simp only [readValue]; exact .array item
  | message name =>
    cases found : schema.get? name with
    | none =>
      simp only [readValue, Schema.require, found]
      exact .refused _
    | some d =>
      cases levels with
      | zero =>
        simp only [readValue, Schema.require, found]
        exact .refused _
      | succ below =>
        have opened : ∀ limit, readValue schema limit (below + 1) (.message name) = (do
            return .record (Keyed.ofList (← readNamed (readValue schema limit below) d.fields))) := by
          intro limit
          simp [readValue, Schema.require, found, MonadExcept.ofExcept, readFields, readNamed]
        simp only [opened]
        exact .record d.fields Keyed.ofList fun record field member => Keyed.mem_of_mem_ofList member

theorem Family.readField_layers (family : Family) : Layers family.readField := by
  intro levels type
  cases type with
  | int => simp only [readField]; exact .scalar Value.int (fun _ => rfl) .int
  | long => simp only [readField]; exact .scalar Value.long (fun _ => rfl) .long
  | float => simp only [readField]; exact .scalar Value.float (fun _ => rfl) .float
  | double => simp only [readField]; exact .scalar Value.double (fun _ => rfl) .double
  | bool => simp only [readField]; exact .scalar Value.bool (fun _ => rfl) .bool
  | string => simp only [readField]; exact .scalar Value.string (fun _ => rfl) .string
  | repeated item =>
    cases levels with
    | zero => simp only [readField]; exact .refused _
    | succ below => simp only [readField]; exact .array item
  | message name =>
    cases levels with
    | zero => simp only [readField]; exact .refused _
    | succ below =>
      cases found : family.get? name with
      | none =>
        simp only [readField, found]
        exact .refused _
      | some d =>
        simp only [(family.readField_follows _).message below name d found]
        exact .record d.fields id fun record field member => member

/-- A property of values that arrays and records inherit from their parts, with one level more, where
no array has more than `limit` elements. -/
structure Hereditary (limit : Nat) (P : Nat → Value → Prop) : Prop where
  scalar : ∀ levels v, v.isScalar = true → P levels v
  array : ∀ levels items, items.length ≤ limit → (∀ v ∈ items, P levels v) → P (levels + 1) (.array items)
  record : ∀ levels fields, (∀ field ∈ fields, P levels field.2) → P (levels + 1) (.record fields)

section Hereditary

variable {limit : Nat} {P : Nat → Value → Prop}

theorem Yields.keptFields {read : FieldType → Read Value} {P : Value → Prop}
    (each : ∀ type, Yields (read type) fun v _ => P v) {arrange : Record → Record}
    (kept : ∀ record, ∀ field ∈ arrange record, field ∈ record) (declared : List Field) :
    Yields (do return arrange (← readNamed read declared)) fun record _ => ∀ field ∈ record, P field.2 := by
  have named : Yields (readNamed read declared) fun record _ => ∀ field ∈ record, P field.2 := by
    refine Yields.fields (R := fun _ record _ => ∀ field ∈ record, P field.2) each (by simp) ?_ declared
    intro f v n declared record m holds others
    exact List.forall_mem_cons.2 ⟨holds, others⟩
  exact named.map arrange fun record n all field member => all field (kept record field member)

/-- One layer keeps what its parts have. -/
theorem Layer.yields {read : Nat → Nat → FieldType → Read Value} {levels : Nat} {parts : Nat → Read Value}
    (layer : Layer read levels parts) (hereditary : Hereditary limit P)
    (below : ∀ fewer < levels, ∀ type, Yields (read limit fewer type) fun v _ => P fewer v) :
    Yields (parts limit) fun v _ => P levels v := by
  cases layer with
  | scalar make simple yields => exact yields.map make fun a _ _ => hereditary.scalar levels _ (simple a)
  | refused fault => exact .throw fault
  | @array levels item =>
    refine (Yields.count limit).bind fun count n allowed => ?_
    have elements : Yields (Cursor.times (read limit levels item) count) fun items _ =>
        items.length = count ∧ ∀ v ∈ items, P levels v :=
      (below levels (Nat.lt_succ_self levels) item).times (by simp)
        (fun v _ items _ first others => List.forall_mem_cons.2 ⟨first, others⟩) count
    refine elements.map Value.array ?_
    rintro items _ ⟨rfl, all⟩
    exact hereditary.array levels items allowed.1 all
  | @record levels declared arrange kept =>
    have fields := Yields.keptFields (below levels (Nat.lt_succ_self levels)) kept declared
    have whole := fields.map (Q := fun v _ => P (levels + 1) v) Value.record fun record _ all =>
      hereditary.record levels record all
    simpa using whole

/-- Induction on the levels left. -/
theorem Layers.yields {read : Nat → Nat → FieldType → Read Value} (layers : Layers read)
    (hereditary : Hereditary limit P) (levels : Nat) (type : FieldType) :
    Yields (read limit levels type) fun v _ => P levels v := by
  induction levels using Nat.strongRecOn generalizing type with
  | ind levels ih => exact (layers levels type).yields hereditary ih

theorem Message.read_keeps (hereditary : Hereditary limit P) (schema : Schema) (type : String) :
    Yields (read schema limit type) fun record _ => ∀ field ∈ record, P Schema.maxDepth field.2 := by
  unfold read
  cases found : schema.get? type with
  | none =>
    simp only [Schema.require, found]
    exact .throw _
  | some d =>
    simp only [Schema.require, found]
    refine (Yields.version d.version).bind fun _ _ _ => ?_
    have each := (readValue_layers schema).yields hereditary Schema.maxDepth
    exact Yields.keptFields each (fun record field member => Keyed.mem_of_mem_ofList member) d.fields

theorem Family.read_keeps {P : Value → Prop} (hereditary : Hereditary limit fun _ => P) (family : Family)
    (d : Definition) : Yields (family.read limit d) fun v _ => P v := by
  refine (Yields.version d.version).bind fun _ _ _ => ?_
  intro c after v run
  exact family.readField_layers.yields hereditary (family.levels c.remaining) (.message d.name) c after v run

end Hereditary

end Wirepack
