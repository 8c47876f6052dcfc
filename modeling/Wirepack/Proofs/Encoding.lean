import Wirepack.Message.Encode
import Wirepack.Proofs.Runs
import Wirepack.Proofs.Values

/-!
# What the encoder writes

A message may hold more than its type declares, and numbers in other widths than declared.
`declared` is the part that the type speaks of, in the declared widths. If encoding succeeds, that
part is a typed value and its bytes are what was written; and it succeeds on every typed value
that is not too deep.
-/

namespace Wirepack
set_option autoImplicit false

theorem Keyed.get?_of_mem {α : Type} {entries : Keyed α} (distinct : (entries.map Prod.fst).Nodup)
    {entry : String × α} (member : entry ∈ entries) : entries.get? entry.1 = some entry.2 := by
  induction entries with
  | nil => cases member
  | cons first rest ih =>
    obtain ⟨fresh, distinct⟩ := List.nodup_cons.1 distinct
    rw [get?, List.lookup_cons]
    rcases List.mem_cons.1 member with rfl | later
    · simp
    · have other : entry.1 ≠ first.1 := fun same => fresh (same ▸ List.mem_map_of_mem later)
      rw [beq_false_of_ne other]
      exact ih distinct later

/-- An entry is found under the name of the field in its place. -/
theorem Value.Typed.get?_of_mem_zip {α : Type} {declared : List Field} {fields : Keyed α}
    (named : fields.map Prod.fst = declared.map Field.name) (distinct : (declared.map Field.name).Nodup)
    {pair : Field × String × α} (member : pair ∈ declared.zip fields) :
    fields.get? pair.1.name = some pair.2.2 := by
  rw [← name_of_mem_zip named member]
  exact Keyed.get?_of_mem (named ▸ distinct) (List.of_mem_zip member).2

/-- The parts of fields that all have one are exactly one entry for each field. -/
theorem filterMap_eq_iff {α : Type} {part : Field → Option α} {declared : List Field}
    (present : ∀ f ∈ declared, (part f).isSome) {entries : List (String × α)} :
    (declared.filterMap fun f => (part f).map fun a => (f.name, a)) = entries ↔
      entries.map Prod.fst = declared.map Field.name ∧ ∀ pair ∈ declared.zip entries, part pair.1 = some pair.2.2 := by
  induction declared generalizing entries with
  | nil => cases entries <;> simp
  | cons f declared ih =>
    obtain ⟨here, later⟩ := List.forall_mem_cons.1 present
    obtain ⟨a, first⟩ := Option.isSome_iff_exists.1 here
    rw [List.filterMap_cons, first]
    obtain _ | ⟨⟨name, b⟩, entries⟩ := entries
    · simp
    · simp only [Option.map_some, List.cons.injEq, Prod.mk.injEq, ih later, List.map_cons, List.zip_cons_cons,
        List.forall_mem_cons, first, Option.some.injEq]
      constructor
      · rintro ⟨⟨rfl, rfl⟩, named, all⟩
        exact ⟨⟨rfl, named⟩, rfl, all⟩
      · rintro ⟨⟨rfl, named⟩, rfl, all⟩
        exact ⟨⟨rfl, rfl⟩, named, all⟩

namespace Message

mutual

/-- The declared part of a value, each number in the width that its type declares. -/
def declared (schema : Schema) : FieldType → Value → Value
  | .int, v => (v.asInt?.map Value.int).getD v
  | .long, v => (v.asLong?.map Value.long).getD v
  | .float, v => (v.asFloat?.map Value.float).getD v
  | .double, v => (v.asDouble?.map Value.double).getD v
  | .bool, v => (v.asBool?.map Value.bool).getD v
  | .string, v => (v.asString?.map Value.string).getD v
  | .repeated item, .array items => .array (items.map (declared schema item))
  | .message name, .record fields => .record (declaredRecord schema name fields)
  | _, v => v
termination_by _ v => (sizeOf v, 0)

/-- The declared fields of a message, in declared order. -/
def declaredRecord (schema : Schema) (type : String) (record : Record) : Record :=
  match schema.get? type with
  | none => record
  | some d => d.fields.filterMap fun f =>
    match found : record.get? f.name with
    | none => none
    | some v =>
      have := Value.sizeOf_field_lt found
      some (f.name, declared schema f.type v)
termination_by (sizeOf record, 0)

end

theorem declaredRecord_eq {schema : Schema} {type : String} {d : Definition} (record : Record)
    (found : schema.get? type = some d) :
    declaredRecord schema type record =
      d.fields.filterMap fun f => (record.get? f.name).map fun v => (f.name, declared schema f.type v) := by
  rw [declaredRecord, found]
  show d.fields.filterMap _ = _
  congr 1
  funext f
  split <;> simp_all

/-- Of a message with all fields that are declared, the declared part has exactly these. -/
theorem declaredRecord_eq_iff {schema : Schema} {type : String} {d : Definition} {record fields : Record}
    (found : schema.get? type = some d) (present : ∀ f ∈ d.fields, (record.get? f.name).isSome) :
    declaredRecord schema type record = fields ↔ fields.map Prod.fst = d.fields.map Field.name ∧
      ∀ pair ∈ d.fields.zip fields, ∃ v, record.get? pair.1.name = some v ∧ declared schema pair.1.type v = pair.2.2 := by
  have part : declaredRecord schema type record = d.fields.filterMap fun f =>
      ((record.get? f.name).map (declared schema f.type)).map fun v => (f.name, v) := by
    simp [declaredRecord_eq record found, Function.comp_def]
  rw [part, filterMap_eq_iff (by simpa using present)]
  simp only [Option.map_eq_some_iff]

/-- A typed value has nothing but its declared part. Induction on the typing. -/
theorem declared_of_typed {schema : Schema} (distinct : ∀ d ∈ schema.messages, (d.fields.map Field.name).Nodup)
    {type : FieldType} {v : Value} (typed : v.Typed schema.get? type) : declared schema type v = v := by
  induction typed with
  | @array item items all ih =>
    rw [declared, List.map_congr_left ih, List.map_id']
  | @record name d fields found named all ih =>
    have different := distinct d (List.mem_of_find?_eq_some found)
    have present : ∀ f ∈ d.fields, (Keyed.get? fields f.name).isSome := by
      intro f member
      obtain ⟨field, paired⟩ := Value.Typed.exists_field named member
      rw [Value.Typed.get?_of_mem_zip named different paired]
      rfl
    have same : declaredRecord schema name fields = fields := by
      apply (declaredRecord_eq_iff found present).2
      refine ⟨named, fun pair member => ⟨pair.2.2, ?_, ih pair member⟩⟩
      exact Value.Typed.get?_of_mem_zip named different member
    rw [declared, same]
  | int v => simp [declared, Value.asInt?_int]
  | _ => simp [declared, Value.asLong?, Value.asFloat?, Value.asDouble?, Value.asBool?, Value.asString?]

/-- A write of a value of some type that succeeded. -/
structure Wrote (schema : Schema) (levels : Nat) (type : FieldType) (v : Value) (b after : Buffer) : Prop where
  typed : (declared schema type v).Typed schema.get? type
  within : (declared schema type v).Within levels
  bytes : after.bytes = b.bytes ++ (declared schema type v).wire

/-- Where a scalar type accepts `a`, the declared part is the value `make a` of that type. -/
theorem wrote_of_accepted {α : Type} {schema : Schema} {levels : Nat} {path : Path} {type : FieldType}
    {v : Value} {put : Buffer → α → Buffer} {accepted : Option α} {b after : Buffer} (make : α → Value)
    (part : declared schema type v = (accepted.map make).getD v)
    (typed : ∀ a, (make a).Typed schema.get? type) (within : ∀ a, (make a).Within levels)
    (bytes : ∀ a, (put b a).bytes = b.bytes ++ (make a).wire)
    (run : putAccepted put path type v accepted b = .ok () after) : Wrote schema levels type v b after := by
  cases accepted with
  | none => cases run
  | some a =>
    cases run
    have whole : declared schema type v = make a := part
    exact ⟨whole ▸ typed a, whole ▸ within a, whole ▸ bytes a⟩

theorem wrote_scalar {schema : Schema} {levels : Nat} {path : Path} {type : FieldType} {v : Value}
    {b after : Buffer} (scalar : type.isScalar) (run : putValue schema levels path type v b = .ok () after) :
    Wrote schema levels type v b after := by
  cases type with
  | repeated _ | message _ => cases scalar
  | int =>
    rw [putValue] at run
    exact wrote_of_accepted Value.int (by rw [declared]) .int (by simp [Value.Within]) (by simp [Value.wire]) run
  | long =>
    rw [putValue] at run
    exact wrote_of_accepted Value.long (by rw [declared]) .long (by simp [Value.Within]) (by simp [Value.wire]) run
  | float =>
    rw [putValue] at run
    exact wrote_of_accepted Value.float (by rw [declared]) .float (by simp [Value.Within]) (by simp [Value.wire]) run
  | double =>
    rw [putValue] at run
    exact wrote_of_accepted Value.double (by rw [declared]) .double (by simp [Value.Within])
      (by simp [Value.wire]) run
  | bool =>
    rw [putValue] at run
    exact wrote_of_accepted Value.bool (by rw [declared]) .bool (by simp [Value.Within]) (by simp [Value.wire]) run
  | string =>
    rw [putValue] at run
    exact wrote_of_accepted Value.string (by rw [declared]) .string (by simp [Value.Within])
      (by simp [Value.wire]) run

theorem putRepeated_eq_ok {schema : Schema} {levels : Nat} {path : Path} {item : FieldType} {v : Value}
    {b after : Buffer} (run : putValue schema levels path (.repeated item) v b = .ok () after) :
    ∃ below items, levels = below + 1 ∧ v = .array items ∧
      (items.zipIdx.forM fun (element, i) => putValue schema below (path.index i) item element : Write Unit)
        (b.putLength items.length) = .ok () after := by
  cases levels with
  | zero => cases run
  | succ below =>
    cases v with
    | array items => exact ⟨below, items, rfl, rfl, run⟩
    | _ => cases run

theorem putMessage_eq_ok {schema : Schema} {levels : Nat} {path : Path} {name : String} {v : Value}
    {b after : Buffer} (run : putValue schema levels path (.message name) v b = .ok () after) :
    ∃ below record d, levels = below + 1 ∧ v = .record record ∧ schema.get? name = some d ∧
      putFields (putValue schema below) d path record b = .ok () after := by
  cases v with
  | record record =>
    simp only [putValue, Value.asRecord?, Schema.require] at run
    cases found : schema.get? name with
    | none =>
      rw [found] at run
      cases run
    | some d =>
      rw [found] at run
      cases levels with
      | zero => cases run
      | succ below => exact ⟨below, record, d, rfl, rfl, rfl, run⟩
  | _ => simp [putValue, Value.asRecord?] at run; cases run

theorem putFields_wrote {schema : Schema} {levels : Nat} {put : Path → FieldType → Value → Write Unit}
    (each : ∀ path type v b after, put path type v b = .ok () after → Wrote schema levels type v b after)
    {d : Definition} {path : Path} {record : Record} {b after : Buffer} {type : String}
    (found : schema.get? type = some d)
    (run : putFields put d path record b = .ok () after) :
    (declaredRecord schema type record).map Prod.fst = d.fields.map Field.name ∧
    (∀ pair ∈ d.fields.zip (declaredRecord schema type record), pair.2.2.Typed schema.get? pair.1.type) ∧
    (∀ field ∈ declaredRecord schema type record, field.2.Within levels) ∧
    after.bytes = b.bytes ++ (declaredRecord schema type record).flatMap fun field => field.2.wire := by
  rw [declaredRecord_eq record found]
  rw [putFields] at run
  generalize d.fields = fields at run ⊢
  induction fields generalizing b with
  | nil =>
    cases run
    simp
  | cons f rest ih =>
    obtain ⟨middle, first, run⟩ := Run.forM_cons_eq_ok.1 run
    cases present : record.get? f.name with
    | none =>
      rw [present] at first
      cases first
    | some v =>
      rw [present] at first
      have wrote := each _ _ _ _ _ first
      obtain ⟨named, typed, within, bytes⟩ := ih run
      simp only [List.filterMap_cons, present, Option.map_some, List.map_cons, named, List.zip_cons_cons,
        List.forall_mem_cons, List.flatMap_cons]
      refine ⟨trivial, ⟨wrote.typed, typed⟩, ⟨wrote.within, within⟩, ?_⟩
      rw [bytes, wrote.bytes, List.append_assoc]

theorem putItems_wrote {schema : Schema} {levels : Nat} {put : Path → FieldType → Value → Write Unit}
    (each : ∀ path type v b after, put path type v b = .ok () after → Wrote schema levels type v b after)
    {item : FieldType} {path : Path} {items : List Value} {start : Nat} {b after : Buffer}
    (run : ((items.zipIdx start).forM fun (element, i) => put (path.index i) item element : Write Unit) b =
      .ok () after) :
    (∀ v ∈ items, (declared schema item v).Typed schema.get? item) ∧
    (∀ v ∈ items, (declared schema item v).Within levels) ∧
    after.bytes = b.bytes ++ items.flatMap fun v => (declared schema item v).wire := by
  induction items generalizing b start with
  | nil =>
    cases run
    simp
  | cons v rest ih =>
    obtain ⟨middle, first, run⟩ := Run.forM_cons_eq_ok.1 run
    have wrote := each _ _ _ _ _ first
    obtain ⟨typed, within, bytes⟩ := ih run
    simp only [List.forall_mem_cons, List.flatMap_cons]
    refine ⟨⟨wrote.typed, typed⟩, ⟨wrote.within, within⟩, ?_⟩
    rw [bytes, wrote.bytes, List.append_assoc]

/-- Encoding writes the bytes of the declared part. Induction on the levels left. -/
theorem putValue_wrote {schema : Schema} {levels : Nat} (path : Path) (type : FieldType) (v : Value)
    (b after : Buffer) (run : putValue schema levels path type v b = .ok () after) :
    Wrote schema levels type v b after := by
  induction levels using Nat.strongRecOn generalizing path type v b after with
  | ind levels ih =>
    cases type with
    | repeated item =>
      obtain ⟨below, items, rfl, rfl, run⟩ := putRepeated_eq_ok run
      obtain ⟨typed, within, bytes⟩ := putItems_wrote (ih below (Nat.lt_succ_self below)) run
      have part : declared schema (.repeated item) (.array items) = .array (items.map (declared schema item)) := by
        rw [declared]
      constructor
      · rw [part]
        exact .array (by simpa using typed)
      · simpa [part, Value.Within] using within
      · rw [part, bytes, Value.wire, List.length_map, List.flatMap_map, Buffer.bytes_putLength, List.append_assoc]
    | message name =>
      obtain ⟨below, record, d, rfl, rfl, found, run⟩ := putMessage_eq_ok run
      obtain ⟨named, typed, within, bytes⟩ := putFields_wrote (ih below (Nat.lt_succ_self below)) found run
      have part : declared schema (.message name) (.record record) = .record (declaredRecord schema name record) := by
        rw [declared]
      constructor
      · rw [part]
        exact .record found named typed
      · simpa [part, Value.Within] using within
      · rw [part, bytes, Value.wire]
    | _ => exact wrote_scalar rfl run

/-- Whatever the buffer holds, the write succeeds and appends `data`. -/
def Appends (write : Write Unit) (data : Bytes) : Prop :=
  ∀ b, ∃ after, write b = .ok () after ∧ after.bytes = b.bytes ++ data

namespace Appends

theorem bind {first second : Write Unit} {data more : Bytes} (appends : Appends first data)
    (goesOn : Appends second more) : Appends (first >>= fun _ => second) (data ++ more) := by
  intro b
  obtain ⟨middle, start, written⟩ := appends b
  obtain ⟨after, rest, bytes⟩ := goesOn middle
  exact ⟨after, Run.bind_eq_ok.2 ⟨(), middle, start, rest⟩, by rw [bytes, written, List.append_assoc]⟩

theorem nothing : Appends (pure ()) [] :=
  fun b => ⟨b, rfl, by simp⟩

theorem modify {f : Buffer → Buffer} {data : Bytes} (bytes : ∀ b, (f b).bytes = b.bytes ++ data) :
    Appends (modify f) data :=
  fun b => ⟨f b, rfl, bytes b⟩

theorem accepted {α : Type} {put : Buffer → α → Buffer} {path : Path} {type : FieldType} {v : Value}
    {data : Bytes} {accepted : Option α} {a : α} (accepts : accepted = some a)
    (bytes : ∀ b, (put b a).bytes = b.bytes ++ data) : Appends (putAccepted put path type v accepted) data := by
  subst accepts
  exact modify bytes

theorem items {put : Nat → Value → Write Unit} {items : List Value} (start : Nat)
    (each : ∀ v ∈ items, ∀ i, Appends (put i v) v.wire) :
    Appends ((items.zipIdx start).forM fun (v, i) => put i v) (items.flatMap Value.wire) := by
  induction items generalizing start with
  | nil => exact nothing
  | cons v rest ih =>
    rw [List.flatMap_cons]
    exact (each v List.mem_cons_self start).bind
      (ih (start + 1) fun w later => each w (List.mem_cons_of_mem v later))

theorem fields {put : Field → Write Unit} {declared : List Field} {fields : Record}
    (named : fields.map Prod.fst = declared.map Field.name)
    (each : ∀ pair ∈ declared.zip fields, Appends (put pair.1) pair.2.2.wire) :
    Appends (declared.forM put) (fields.flatMap fun field => field.2.wire) := by
  induction declared generalizing fields with
  | nil =>
    obtain rfl : fields = [] := by simpa using named
    exact nothing
  | cons f declared ih =>
    obtain _ | ⟨field, fields⟩ := fields
    · simp at named
    · rw [List.flatMap_cons]
      exact (each (f, field) (by simp)).bind
        (ih (List.cons.inj named).2 fun pair member => each pair (by simp [member]))

end Appends

theorem putMessage_eq {schema : Schema} {levels : Nat} {path : Path} {name : String} {d : Definition}
    {fields : Record} (found : schema.get? name = some d) :
    putValue schema (levels + 1) path (.message name) (.record fields) =
      putFields (putValue schema levels) d path fields := by
  simp [putValue, Value.asRecord?, Schema.require, found, MonadExcept.ofExcept]

/-- Every typed value that is not too deep is encoded, and to its bytes. Induction on the typing. -/
theorem putValue_appends {schema : Schema} (distinct : ∀ d ∈ schema.messages, (d.fields.map Field.name).Nodup)
    {type : FieldType} {v : Value} (typed : v.Typed schema.get? type) {levels : Nat} (within : v.Within levels)
    (path : Path) : Appends (putValue schema levels path type v) v.wire := by
  induction typed generalizing levels path with
  | bool v =>
    rw [putValue]
    exact .accepted rfl (by simp [Value.wire])
  | int v =>
    rw [putValue]
    exact .accepted (Value.asInt?_int v) (by simp [Value.wire])
  | long v =>
    rw [putValue]
    exact .accepted rfl (by simp [Value.wire])
  | float v =>
    rw [putValue]
    exact .accepted rfl (by simp [Value.wire])
  | double v =>
    rw [putValue]
    exact .accepted rfl (by simp [Value.wire])
  | string text =>
    rw [putValue]
    exact .accepted rfl (by simp [Value.wire])
  | @array item items all ih =>
    obtain _ | below := levels
    · exact within.elim
    · rw [putValue, Value.wire]
      have elements : ∀ v ∈ items, ∀ i, Appends (putValue schema below (path.index i) item v) v.wire :=
        fun v member i => ih v member (within v member) (path.index i)
      exact Appends.bind (.modify (by simp)) (.items 0 elements)
  | @record name d fields found named all ih =>
    obtain _ | below := levels
    · exact within.elim
    · have different := distinct d (List.mem_of_find?_eq_some found)
      rw [putMessage_eq found, Value.wire]
      refine Appends.fields named fun pair member => ?_
      rw [Value.Typed.get?_of_mem_zip named different member]
      exact ih pair member (within pair.2 (List.of_mem_zip member).2) (path.field pair.1.name)

end Message

end Wirepack
