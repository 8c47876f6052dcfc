import Wirepack.Proofs.Encoding
import Wirepack.Proofs.TypedReading

/-!
# Messages come back from their payloads

Whatever the encoder accepts is read back: the declared part of the message, in declared order
and widths and with its floats in fixed point, from exactly the bytes that were written. The
schema need not be valid; only the fields of a message must have different names.
-/

namespace Wirepack.Message
set_option autoImplicit false

/-- The message as it comes back: its declared part, each float as its fixed-point form gives it. -/
def normal (schema : Schema) (type : String) (record : Record) : Record :=
  (declaredRecord schema type record).map fun field => (field.1, field.2.requantized)

theorem encode_eq_ok {schema : Schema} {config : Config} {type : String} {record : Record} {payload : Bytes}
    (encoded : encode schema config type record = .ok payload) :
    ∃ d b, schema.get? type = some d ∧ payload = b.bytes ∧
      putBody schema d record ((Buffer.withCapacity config.initialCapacity).putString d.version) = .ok () b := by
  unfold encode Schema.require at encoded
  cases found : schema.get? type with
  | none =>
    rw [found] at encoded
    cases encoded
  | some d =>
    rw [found] at encoded
    obtain ⟨e, same, encoded⟩ := Check.bind_eq_ok.1 encoded
    cases same
    split at encoded
    · next b run =>
      cases encoded
      exact ⟨d, b, rfl, rfl, run⟩
    · cases encoded

/-- Decoding an encoded message gives its normal form and stops where the message ends. -/
theorem decode_encode_append {schema : Schema} (distinct : ∀ d ∈ schema.messages, (d.fields.map Field.name).Nodup)
    {writing reading : Config} {type : String} {record : Record} {payload : Bytes}
    (encoded : encode schema writing type record = .ok payload)
    (fits : ∀ field ∈ declaredRecord schema type record, field.2.Fits reading.maxCollection)
    (tag : ∀ d, schema.get? type = some d → (Utf8.encode d.version).length < Written.lengthBound)
    (suffix : Bytes) :
    decode schema reading type (payload ++ suffix) = .ok (normal schema type record) ∧
      read schema reading.maxCollection type (.start (payload ++ suffix)) =
        .ok (normal schema type record) ⟨payload.length, suffix⟩ := by
  obtain ⟨d, b, found, rfl, run⟩ := encode_eq_ok encoded
  obtain ⟨named, typed, within, bytes⟩ := putFields_wrote putValue_wrote found run
  have different := distinct d (List.mem_of_find?_eq_some found)
  have body : Reads (readNamed (readValue schema reading.maxCollection Schema.maxDepth) d.fields) _
      (normal schema type record) :=
    Reads.fields named fun pair member =>
      have inside := (List.of_mem_zip member).2
      (readValue_follows distinct).reads (typed pair member) (fits pair.2 inside) (within pair.2 inside)
  rw [Buffer.bytes_putString, Buffer.bytes_withCapacity, List.nil_append] at bytes
  have whole : Reads (read schema reading.maxCollection type) b.bytes (normal schema type record) := by
    rw [read_eq found different, bytes]
    exact (Reads.version (tag d found)).bind body
  have stops : read schema reading.maxCollection type (.start (b.bytes ++ suffix)) =
      .ok (normal schema type record) ⟨b.bytes.length, suffix⟩ := by
    simpa [Cursor.start] using whole 0 suffix
  exact ⟨by rw [decode, stops], stops⟩

/-- A message that may contain itself, so that a schema of it is not valid. -/
def node : Schema :=
  ⟨"1", [⟨"Node", "n1", [⟨"id", .int⟩, ⟨"children", .repeated (.message "Node")⟩]⟩]⟩

/-- A long where an int is declared, a field that is not declared, and another order. -/
def tree : Record :=
  [("note", .string "spare"), ("children", .array [.record [("id", .int 7), ("children", .array [])]]),
    ("id", .long 300)]

theorem declared_tree : declaredRecord node "Node" tree =
    [("id", .int 300), ("children", .array [.record [("id", .int 7), ("children", .array [])]])] := by
  have found : node.get? "Node" =
      some ⟨"Node", "n1", [⟨"id", .int⟩, ⟨"children", .repeated (.message "Node")⟩]⟩ := rfl
  simp [declaredRecord_eq _ found, tree, declared, Keyed.get?, List.lookup_cons]
  exact ⟨rfl, rfl⟩

theorem decode_encode_tree :
    encode node ⟨0, 0⟩ "Node" tree = .ok [4, 110, 49, 216, 4, 2, 14, 0] ∧
      decode node ⟨0, 1⟩ "Node" [4, 110, 49, 216, 4, 2, 14, 0, 9] = .ok (normal node "Node" tree) := by
  have encoded : encode node ⟨0, 0⟩ "Node" tree = .ok [4, 110, 49, 216, 4, 2, 14, 0] := rfl
  have fits : ∀ field ∈ declaredRecord node "Node" tree, field.2.Fits 1 := by
    simp [declared_tree, Value.Fits, Written.lengthBound]
  have tag : ∀ d, node.get? "Node" = some d → (Utf8.encode d.version).length < Written.lengthBound := by
    intro d found
    cases found
    decide
  exact ⟨encoded, (decode_encode_append (by decide) encoded fits tag [9]).1⟩

end Wirepack.Message
