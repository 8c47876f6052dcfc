import Wirepack.Proofs.Appending
import Wirepack.Proofs.Decoding

/-!
# The shortest payload of a message

Many payloads may decode to one message. Encoding the message picks one of them that is no longer
than any other and that decodes to the message again. For a message without floats this needs no
condition on the payload: what decoding accepts is never too deep, too long or of another type for
encoding.
-/

namespace Wirepack
set_option autoImplicit false

/-- A value of the type `outer` may hold a value of the type `inner`, or is itself one. -/
inductive FieldType.Reaches (lookup : String → Option Definition) : FieldType → FieldType → Prop where
  | self (type : FieldType) : Reaches lookup type type
  | item {item inner : FieldType} (below : Reaches lookup item inner) : Reaches lookup (.repeated item) inner
  | field {name : String} {d : Definition} {f : Field} {inner : FieldType} (found : lookup name = some d)
      (member : f ∈ d.fields) (below : Reaches lookup f.type inner) : Reaches lookup (.message name) inner

/-- What holds of a type and passes to elements and fields holds of all that the type reaches. -/
theorem FieldType.Reaches.passes {lookup : String → Option Definition} {P : FieldType → Prop}
    (item : ∀ type, P (.repeated type) → P type)
    (field : ∀ name d f, P (.message name) → lookup name = some d → f ∈ d.fields → P f.type) {outer inner : FieldType}
    (reaches : outer.Reaches lookup inner) (start : P outer) : P inner := by
  induction reaches with
  | self => exact start
  | item below ih => exact ih (item _ start)
  | field found member below ih => exact ih (field _ _ _ start found member)

namespace Value

theorem Typed.floatless {lookup : String → Option Definition} {type : FieldType} {v : Value}
    (typed : v.Typed lookup type) (none : ∀ inner, type.Reaches lookup inner → inner.isFloat = false) :
    v.Floatless := by
  induction typed with
  | float v => cases none .float (.self _)
  | double v => cases none .double (.self _)
  | array all ih =>
    rw [Floatless]
    exact fun v member => ih v member fun inner below => none inner (.item below)
  | @record name d fields found named all ih =>
    rw [Floatless]
    intro field member
    obtain ⟨f, paired⟩ := Typed.exists_declared named member
    exact ih (f, field) paired fun inner below => none inner (.field found (List.of_mem_zip paired).1 below)
  | _ => simp [Floatless]

/-- Only floats change on the way. -/
theorem Floatless.requantized_eq {v : Value} (floatless : v.Floatless) : v.requantized = v := by
  induction v using Value.requantized.induct with
  | case4 v => simp [Floatless] at floatless
  | case5 v => simp [Floatless] at floatless
  | case7 items ih =>
    rw [Floatless] at floatless
    rw [requantized, List.map_congr_left fun v member => ih v member (floatless v member), List.map_id']
  | case8 fields ih =>
    rw [Floatless] at floatless
    have same : ∀ field ∈ fields, (field.1, field.2.requantized) = field := fun field member => by
      rw [ih field member (floatless field member)]
    rw [requantized, List.map_congr_left same, List.map_id']
  | _ => rw [requantized]

theorem Floatless.requantized_fields {fields : Record} (floatless : (Value.record fields).Floatless) :
    (fields.map fun field => (field.1, field.2.requantized)) = fields := by
  have whole := floatless.requantized_eq
  rw [requantized] at whole
  exact Value.record.inj whole

end Value

namespace Message

variable {schema : Schema} {type : String} {d : Definition} {limit taken : Nat} {record : Record}

/-- A payload that is read in full gives its tag and the fields that the type declares. -/
theorem read_yields (distinct : ∀ d ∈ schema.messages, (d.fields.map Field.name).Nodup) (limit : Nat)
    (type : String) : Yields (read schema limit type) fun record n => ∃ d taken, schema.get? type = some d ∧
      (Utf8.encode d.version).length < Written.lengthBound ∧
      Record.Accepted schema.get? limit Schema.maxDepth d.fields record taken ∧
      (Written.string d.version).length + taken ≤ n := by
  cases found : schema.get? type with
  | none =>
    simp only [read, Schema.require, found]
    exact .throw _
  | some d =>
    rw [read_eq found (distinct d (List.mem_of_find?_eq_some found))]
    refine (Yields.version d.version).bind ?_
    rintro _ n ⟨small, short⟩
    intro c after record run
    obtain ⟨taken, there, accepted⟩ :=
      Yields.record (readValue_yields distinct limit Schema.maxDepth) d.fields c after record run
    exact ⟨taken, there, d, taken, rfl, small, accepted, by omega⟩

/-- What was encoded is the declared part of the message, which is typed and not too deep. -/
theorem encode_wrote {config : Config} {payload : Bytes} (encoded : encode schema config type record = .ok payload) :
    ∃ d, schema.get? type = some d ∧
      (Value.record (declaredRecord schema type record)).Typed schema.get? (.message type) ∧
      (Value.record (declaredRecord schema type record)).Within (Schema.maxDepth + 1) ∧
      payload = Written.string d.version ++ (Value.record (declaredRecord schema type record)).wire := by
  obtain ⟨d, b, found, rfl, run⟩ := encode_eq_ok encoded
  rw [putBody, ← putMessage_eq found] at run
  obtain ⟨typed, within, bytes⟩ := putValue_wrote .top _ _ _ _ run
  rw [declared] at typed within bytes
  exact ⟨d, found, typed, within, by simpa using bytes⟩

theorem encode_of_within (distinct : ∀ d ∈ schema.messages, (d.fields.map Field.name).Nodup)
    (found : schema.get? type = some d) (typed : (Value.record record).Typed schema.get? (.message type))
    (within : (Value.record record).Within (Schema.maxDepth + 1)) (config : Config) :
    encode schema config type record = .ok (Written.string d.version ++ (Value.record record).wire) := by
  have appends := putValue_appends distinct typed within .top
  rw [putMessage_eq found] at appends
  obtain ⟨after, run, bytes⟩ := appends ((Buffer.withCapacity config.initialCapacity).putString d.version)
  rw [encode_of_known found, putBody, run]
  simp [bytes]

theorem encode_of_accepted (distinct : ∀ d ∈ schema.messages, (d.fields.map Field.name).Nodup)
    (found : schema.get? type = some d)
    (accepted : Record.Accepted schema.get? limit Schema.maxDepth d.fields record taken) (config : Config) :
    encode schema config type record =
      .ok (Written.string d.version ++ record.flatMap fun field => field.2.wire) := by
  have typed : (Value.record record).Typed schema.get? (.message type) :=
    .record found accepted.named accepted.typed
  rw [encode_of_within distinct found typed accepted.within, Value.wire]

theorem reads_of_accepted (distinct : ∀ d ∈ schema.messages, (d.fields.map Field.name).Nodup)
    (found : schema.get? type = some d)
    (accepted : Record.Accepted schema.get? limit Schema.maxDepth d.fields record taken)
    (tag : (Utf8.encode d.version).length < Written.lengthBound) :
    Reads (read schema limit type) (Written.string d.version ++ record.flatMap fun field => field.2.wire)
      (record.map fun field => (field.1, field.2.requantized)) := by
  rw [read_eq found (distinct d (List.mem_of_find?_eq_some found))]
  refine (Reads.version tag).bind (Reads.fields accepted.named fun pair member => ?_)
  have inside := (List.of_mem_zip member).2
  exact (readValue_follows distinct).reads (accepted.typed pair member) (accepted.fits pair.2 inside)
    (accepted.within pair.2 inside)

/-- A message that was read, without floats, has a payload of its own, from which it is read again. -/
theorem exists_payload (distinct : ∀ d ∈ schema.messages, (d.fields.map Field.name).Nodup)
    (none : ∀ inner, (FieldType.message type).Reaches schema.get? inner → inner.isFloat = false)
    {c after : Cursor} (run : read schema limit type c = .ok record after) :
    ∃ payload : Bytes, (∀ config, encode schema config type record = .ok payload) ∧
      Reads (read schema limit type) payload record ∧ c.position + payload.length ≤ after.position := by
  obtain ⟨n, stop, d, taken, found, small, accepted, enough⟩ := read_yields distinct limit type c after record run
  have floatless : (Value.record record).Floatless :=
    Value.Typed.floatless (.record found accepted.named accepted.typed) none
  have reads := reads_of_accepted distinct found accepted small
  rw [floatless.requantized_fields] at reads
  refine ⟨_, encode_of_accepted distinct found accepted, reads, ?_⟩
  rw [Value.Floatless] at floatless
  have shorter := accepted.shorter floatless
  rw [List.length_append, stop]
  omega

/-- Encoding what was decoded succeeds, with no more bytes than decoding took, and gives a payload that
decodes, in full, to the same message; so it is the payload of whatever decodes from it. -/
theorem encode_decoded (distinct : ∀ d ∈ schema.messages, (d.fields.map Field.name).Nodup)
    (none : ∀ inner, (FieldType.message type).Reaches schema.get? inner → inner.isFloat = false)
    {config : Config} {data : Bytes} (decoded : decode schema config type data = .ok record) (writing : Config) :
    ∃ after payload, read schema config.maxCollection type (.start data) = .ok record after ∧
      encode schema writing type record = .ok payload ∧ payload.length ≤ after.position ∧
      decode schema config type payload = .ok record ∧
      read schema config.maxCollection type (.start payload) = .ok record ⟨payload.length, []⟩ ∧
      ∀ again, decode schema config type payload = .ok again → encode schema writing type again = .ok payload := by
  rw [decode] at decoded
  split at decoded
  · next m after run =>
    cases decoded
    obtain ⟨payload, encoded, reads, shorter⟩ := exists_payload distinct none run
    have back : read schema config.maxCollection type (.start payload) = .ok record ⟨payload.length, []⟩ := by
      simpa [Cursor.start] using reads 0 []
    have decodedAgain : decode schema config type payload = .ok record := by
      rw [decode, back]
    refine ⟨after, payload, run, encoded writing, ?_, decodedAgain, back, fun again same => ?_⟩
    · simpa [Cursor.start] using shorter
    · cases decodedAgain.symm.trans same
      exact encoded writing
  · cases decoded

def gauge : Schema :=
  ⟨"1", [⟨"Gauge", "g", [⟨"on", .bool⟩, ⟨"level", .int⟩, ⟨"marks", .repeated .long⟩]⟩]⟩

/-- Lengths in two bytes each, a switch that is on as 7, a level with a bit above the 32nd, and a byte
after the message. -/
def spelledOut : Bytes := [130, 0, 103, 7, 138, 128, 128, 128, 128, 1, 130, 0, 3, 9]

theorem encode_decoded_gauge :
    decode gauge ⟨0, 1⟩ "Gauge" spelledOut =
      .ok [("on", .bool true), ("level", .int 5), ("marks", .array [.long (-2)])] ∧
    encode gauge ⟨0, 0⟩ "Gauge" [("on", .bool true), ("level", .int 5), ("marks", .array [.long (-2)])] =
      .ok [2, 103, 1, 10, 2, 3] ∧
    ∀ again, decode gauge ⟨0, 1⟩ "Gauge" [2, 103, 1, 10, 2, 3] = .ok again →
      encode gauge ⟨0, 0⟩ "Gauge" again = .ok [2, 103, 1, 10, 2, 3] := by
  have decoded : decode gauge ⟨0, 1⟩ "Gauge" spelledOut =
      .ok [("on", .bool true), ("level", .int 5), ("marks", .array [.long (-2)])] := rfl
  have shortest : encode gauge ⟨0, 0⟩ "Gauge" [("on", .bool true), ("level", .int 5), ("marks", .array [.long (-2)])] =
      .ok [2, 103, 1, 10, 2, 3] := rfl
  have none : ∀ inner, (FieldType.message "Gauge").Reaches gauge.get? inner → inner.isFloat = false := by
    intro inner reaches
    cases reaches with
    | self => rfl
    | field found member below =>
      have known : gauge.get? "Gauge" =
          some ⟨"Gauge", "g", [⟨"on", .bool⟩, ⟨"level", .int⟩, ⟨"marks", .repeated .long⟩]⟩ := rfl
      cases known.symm.trans found
      simp only [List.mem_cons, List.not_mem_nil, or_false] at member
      rcases member with rfl | rfl | rfl
      · cases below
        rfl
      · cases below
        rfl
      · cases below with
        | self => rfl
        | item below =>
          cases below
          rfl
  obtain ⟨after, payload, -, encoded, -, -, -, again⟩ := encode_decoded (by decide) none decoded ⟨0, 0⟩
  cases encoded.symm.trans shortest
  exact ⟨decoded, shortest, again⟩

end Message

end Wirepack
