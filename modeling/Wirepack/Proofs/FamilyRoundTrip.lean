import Wirepack.Proofs.TypedReading

/-!
# Values of declared types come back

Reading a value of a family has no limit on depth, only more levels than the bytes left allow for.
That these suffice is the point here: an array takes a byte for its count, and between two arrays
no message type repeats, since a type that contains itself directly has no values at all. So the
nesting of a value is bounded by its bytes and the number of declared types.
-/

namespace Wirepack
set_option autoImplicit false

theorem Varint.encode_ne_nil (value : UInt64) : encode value ≠ [] := by
  unfold encode
  cases maxSize - 1 with
  | zero => simp [groups]
  | succ more =>
    rw [groups]
    split <;> simp

namespace Value

theorem length_written_pos (count : Nat) : 0 < (Written.length count).length :=
  List.length_pos_iff.2 (Varint.encode_ne_nil _)

theorem length_wire_array_pos (items : List Value) : 0 < (Value.array items).wire.length := by
  have counted := length_written_pos items.length
  rw [wire, List.length_append]
  omega

theorem length_wire_lt_array {v : Value} {items : List Value} (member : v ∈ items) :
    v.wire.length < (Value.array items).wire.length := by
  have counted := length_written_pos items.length
  have inside := (List.sublist_flatten_of_mem (List.mem_map_of_mem (f := wire) member)).length_le
  rw [wire, List.length_append, List.flatMap]
  omega

theorem length_wire_le_record {field : String × Value} {fields : List (String × Value)}
    (member : field ∈ fields) : field.2.wire.length ≤ (Value.record fields).wire.length := by
  have inside := (List.sublist_flatten_of_mem
    (List.mem_map_of_mem (f := fun field : String × Value => field.2.wire) member)).length_le
  rwa [wire, List.flatMap]

end Value

namespace Family

/-- A value of the type `outer` contains a value of the type `inner` outside any array. -/
def Embeds (family : Family) (outer inner : String) : Prop :=
  ∃ d, family.get? outer = some d ∧ ∃ f ∈ d.fields, f.type = .message inner

/-- All declarations of a family as one schema. -/
def whole (family : Family) : Schema := ⟨"", family.declarations⟩

theorem length_offPath_le (family : Family) (path : List String) :
    (family.whole.offPath path).length ≤ family.declarations.length :=
  List.length_filter_le _ _

variable {family : Family}

theorem exists_smaller {outer inner : String} {v : Value} (typed : v.Typed family.get? (.message outer))
    (embeds : family.Embeds outer inner) :
    ∃ w : Value, w.Typed family.get? (.message inner) ∧ sizeOf w < sizeOf v := by
  obtain ⟨d, found, f, member, isMessage⟩ := embeds
  cases typed with
  | @record _ e fields known named all =>
    obtain rfl : e = d := Option.some.inj (known.symm.trans found)
    obtain ⟨field, paired⟩ := Value.Typed.exists_field named member
    exact ⟨field.2, isMessage ▸ all _ paired, Value.sizeOf_snd_lt_record (List.of_mem_zip paired).2⟩

theorem exists_smaller_of_transGen {outer inner : String} (chain : Relation.TransGen family.Embeds outer inner)
    {v : Value} (typed : v.Typed family.get? (.message outer)) :
    ∃ w : Value, w.Typed family.get? (.message inner) ∧ sizeOf w < sizeOf v := by
  induction chain with
  | single embeds => exact exists_smaller typed embeds
  | tail _ embeds ih =>
    obtain ⟨w, middle, less⟩ := ih
    obtain ⟨u, last, lesser⟩ := exists_smaller middle embeds
    exact ⟨u, last, Nat.lt_trans lesser less⟩

/-- A type that contains itself directly has no values: each would contain a smaller one. -/
theorem not_embeds_self {name : String} {v : Value} (typed : v.Typed family.get? (.message name)) :
    ¬ Relation.TransGen family.Embeds name name := by
  intro ring
  induction size : sizeOf v using Nat.strongRecOn generalizing v with
  | ind n ih =>
    obtain ⟨w, smaller, less⟩ := exists_smaller_of_transGen ring typed
    exact ih (sizeOf w) (size ▸ less) smaller rfl

/-- Each array inside a value takes a byte, and gives the messages below it all types anew. The
messages of `path` contain the value directly, so that its own type is not among them. -/
theorem within_of_typed {type : FieldType} {v : Value} (typed : v.Typed family.get? type) (path : List String)
    (below : ∀ outer ∈ path, ∀ name, type = .message name → Relation.TransGen family.Embeds outer name) :
    v.Within (v.wire.length * (family.declarations.length + 1) + (family.whole.offPath path).length) := by
  induction typed generalizing path with
  | @array item items all ih =>
    refine Value.within_array ?_ fun v member => ⟨_, ?_, ih v member [] (by simp)⟩
    · have counted : 0 < (Value.array items).wire.length * (family.declarations.length + 1) :=
        Nat.mul_pos (Value.length_wire_array_pos items) (Nat.succ_pos _)
      omega
    · have longer := Nat.mul_le_mul_right (family.declarations.length + 1) (Value.length_wire_lt_array member)
      have few := family.length_offPath_le []
      rw [Nat.succ_mul] at longer
      omega
  | @record name d fields found named all ih =>
    have fresh : name ∉ path := fun onPath =>
      not_embeds_self (.record found named all) (below name onPath name rfl)
    have fewer : (family.whole.offPath (name :: path)).length < (family.whole.offPath path).length :=
      Schema.offPath_cons_lt found fresh
    refine Value.within_record (by omega) fun field member => ?_
    obtain ⟨f, paired⟩ := Value.Typed.exists_declared named member
    have embeds : ∀ inner, f.type = .message inner → family.Embeds name inner := fun inner isMessage =>
      ⟨d, found, f, (List.of_mem_zip paired).1, isMessage⟩
    refine ⟨field.2.wire.length * (family.declarations.length + 1) + (family.whole.offPath (name :: path)).length,
      ?_, ih (f, field) paired (name :: path) ?_⟩
    · have shorter := Nat.mul_le_mul_right (family.declarations.length + 1) (Value.length_wire_le_record member)
      omega
    · intro outer onPath inner isMessage
      rcases List.mem_cons.1 onPath with rfl | above
      · exact .single (embeds inner isMessage)
      · exact .tail (below outer above name rfl) (embeds inner isMessage)
  | _ => simp [Value.Within]

theorem reads_body {v : Value} {d : Definition} {limit : Nat} (typed : v.Typed family.get? (.message d.name))
    (fits : v.Fits limit) : Reads (family.readBody limit d) v.wire v.requantized := by
  intro position suffix
  have within := within_of_typed typed [] (by simp)
  have few := family.length_offPath_le []
  have enough : v.Within (family.levels (v.wire ++ suffix).length) := by
    apply within.mono
    rw [levels, List.length_append, Nat.add_right_comm, Nat.add_mul, Nat.add_mul]
    omega
  exact (family.readField_follows limit).reads typed fits enough position suffix

/-- Reading a payload of a declared type gives the value, floats in fixed point, and stops where
the value ends; so does reading the value alone, after whatever stands before it in a buffer. -/
theorem decode_encode_value {v : Value} {d : Definition} (writing reading : Config)
    (typed : v.Typed family.get? (.message d.name)) (fits : v.Fits reading.maxCollection)
    (tag : (Utf8.encode d.version).length < Written.lengthBound) (suffix : Bytes) :
    family.decode reading d (encode d writing v ++ suffix) = .ok v.requantized ∧
    family.read reading.maxCollection d (.start (encode d writing v ++ suffix)) =
      .ok v.requantized ⟨(encode d writing v).length, suffix⟩ ∧
    ∀ b : Buffer,
      family.readBody reading.maxCollection d ⟨b.length, ((v.put b).bytes ++ suffix).drop b.length⟩ =
        .ok v.requantized ⟨(v.put b).length, suffix⟩ := by
  have body := reads_body typed fits
  have payload : encode d writing v = Written.string d.version ++ v.wire := by
    simp [encode, Value.bytes_put]
  have whole : Reads (family.read reading.maxCollection d) (encode d writing v) v.requantized := by
    rw [payload]
    exact (Reads.version tag).bind body
  have stops : family.read reading.maxCollection d (.start (encode d writing v ++ suffix)) =
      .ok v.requantized ⟨(encode d writing v).length, suffix⟩ := by
    simpa [Cursor.start] using whole 0 suffix
  refine ⟨by rw [decode, stops], stops, fun b => ?_⟩
  have after : (v.put b).length = b.length + v.wire.length := by
    rw [← Buffer.length_bytes, Value.bytes_put, List.length_append, Buffer.length_bytes]
  have rest : ((v.put b).bytes ++ suffix).drop b.length = v.wire ++ suffix := by
    rw [Value.bytes_put, List.append_assoc, List.drop_left' (Buffer.length_bytes b)]
  rw [rest, after]
  exact body b.length suffix

def ping : Definition :=
  ⟨"Ping", "é✓", [⟨"pongs", .repeated (.message "Pong")⟩]⟩

/-- Two types that contain each other through arrays. -/
def rally : Family :=
  ⟨[ping, ⟨"Pong", "p", [⟨"speed", .float⟩, ⟨"pings", .repeated (.message "Ping")⟩]⟩]⟩

/-- A `Ping` that ends, two messages further down, with a `Ping` without pongs. -/
def exchange : Value :=
  .record [("pongs", .array [.record [("speed", .float 1.5), ("pings", .array [.record [("pongs", .array [])]])]])]

theorem typed_exchange : exchange.Typed rally.get? (.message "Ping") := by
  have last : (Value.record [("pongs", .array [])]).Typed rally.get? (.message "Ping") :=
    .record rfl rfl (by simpa [ping] using .array (by simp))
  have middle : (Value.record [("speed", .float 1.5), ("pings", .array [.record [("pongs", .array [])]])]).Typed
      rally.get? (.message "Pong") :=
    .record rfl rfl (by simpa using ⟨.float 1.5, .array (by simpa using last)⟩)
  exact .record rfl rfl (by simpa [ping] using .array (by simpa using middle))

theorem decode_encode_exchange : exchange.Typed rally.get? (.message ping.name) ∧ exchange.Fits 1 ∧
    rally.decode ⟨0, 1⟩ ping (encode ping ⟨7, 0⟩ exchange ++ [9]) = .ok exchange.requantized := by
  have fits : exchange.Fits 1 := by simp [exchange, Value.Fits, Written.lengthBound]
  exact ⟨typed_exchange, fits, (decode_encode_value ⟨7, 0⟩ ⟨0, 1⟩ typed_exchange fits (by decide) [9]).1⟩

end Family

end Wirepack
