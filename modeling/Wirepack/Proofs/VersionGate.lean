import Wirepack.Proofs.Appending
import Wirepack.Proofs.CursorRuns
import Wirepack.Proofs.Extension

/-!
# The version gate

Nothing on the wire but the tag in front tells the messages of one schema from those of another. A
decoder reads the tag first and goes on only if it is the one it expects; what `peekVersion` makes of
the same bytes therefore decides how decoding begins, and where. Both encoders put the tag of the
type in front, so a payload never passes as a message with another tag, whatever its body.
-/

namespace Wirepack
set_option autoImplicit false

theorem Cursor.version_eq (expected : String) (c : Cursor) : version expected c = match string c with
    | .ok actual after => if actual ≠ expected then .error (.versionMismatch expected actual) after else .ok () after
    | .error fault after => .error fault after := by
  simp only [version, bind, EStateM.bind]
  cases string c with
  | ok actual after =>
    simp only []
    split <;> rfl
  | error fault after => rfl

namespace Message

section Peek

variable {data : Bytes} {version : String} {offset : Nat}

theorem peekVersion_eq_error {fault : Fault} (peeked : peekVersion data = .error fault) :
    ∃ after, Cursor.string (.start data) = .error fault after := by
  unfold peekVersion at peeked
  split at peeked
  · cases peeked
  · next after stopped =>
    cases peeked
    exact ⟨after, stopped⟩

/-- A tag that can be read is that of the bytes up to the offset, and the cursor goes on from there. -/
theorem peekVersion_eq_ok (peeked : peekVersion data = .ok (version, offset)) :
    Cursor.string (.start data) = .ok version ((Cursor.start data).advance offset) ∧
      Reads Cursor.string (data.take offset) version := by
  unfold peekVersion at peeked
  split at peeked
  · next after read =>
    cases peeked
    obtain ⟨position, rest⟩ := after
    obtain ⟨taken, front, there, reads⟩ := Local.string _ _ version read
    have whole : data = taken ++ rest := front
    have size : position = taken.length := there.trans (Nat.zero_add _)
    subst whole size
    rw [read, List.take_left]
    refine ⟨?_, reads⟩
    simp [Cursor.advance, Cursor.start]
  · cases peeked

theorem peekVersion_of_reads {taken : Bytes} (reads : Reads Cursor.string taken version) (suffix : Bytes) :
    peekVersion (taken ++ suffix) = .ok (version, taken.length) := by
  rw [peekVersion, Cursor.start, reads 0 suffix, Nat.zero_add]

end Peek

end Message

/-- The tag of a payload decides what `decode` makes of it. One that cannot be read is the fault; another
tag than the expected one is a mismatch, whatever follows it; and after the expected one comes what `body`
reads from there. -/
structure Gated {α : Type} (tag : String) (decode : Bytes → Except Fault α) (body : Read α) : Prop where
  unreadable : ∀ data fault, Message.peekVersion data = .error fault → decode data = .error fault
  refused : ∀ data version offset, Message.peekVersion data = .ok (version, offset) → version ≠ tag →
    decode data = .error (.versionMismatch tag version) ∧
      ∀ suffix, decode (data.take offset ++ suffix) = .error (.versionMismatch tag version)
  admitted : ∀ data offset, Message.peekVersion data = .ok (tag, offset) →
    decode data = match body ((Cursor.start data).advance offset) with
      | .ok a _ => .ok a
      | .error fault _ => .error fault

theorem Gated.ofVersion {α : Type} (tag : String) (body : Read α) :
    Gated tag (answer (Cursor.version tag >>= fun _ => body)) body where
  unreadable data fault peeked := by
    obtain ⟨after, stopped⟩ := Message.peekVersion_eq_error peeked
    have failed : Cursor.version tag (.start data) = .error fault after := by
      rw [Cursor.version_eq, stopped]
    rw [answer, Run.bind_eq_error.2 (.inl failed)]
  refused data version offset peeked different := by
    obtain ⟨-, reads⟩ := Message.peekVersion_eq_ok peeked
    have always : ∀ suffix, answer (Cursor.version tag >>= fun _ => body) (data.take offset ++ suffix) =
        .error (.versionMismatch tag version) := by
      intro suffix
      have read := reads 0 suffix
      have failed : Cursor.version tag (.start (data.take offset ++ suffix)) =
          .error (.versionMismatch tag version) ⟨0 + (data.take offset).length, suffix⟩ := by
        rw [Cursor.version_eq, Cursor.start, read]
        exact if_pos different
      rw [answer, Run.bind_eq_error.2 (.inl failed)]
    have whole := always (data.drop offset)
    rw [List.take_append_drop] at whole
    exact ⟨whole, always⟩
  admitted data offset peeked := by
    obtain ⟨read, -⟩ := Message.peekVersion_eq_ok peeked
    have passed : Cursor.version tag (.start data) = .ok () ((Cursor.start data).advance offset) := by
      rw [Cursor.version_eq, read]
      exact if_neg (fun different => different rfl)
    cases stopped : body ((Cursor.start data).advance offset) with
    | ok a after => rw [answer, Run.bind_eq_ok.2 ⟨(), _, passed, stopped⟩]
    | error fault after => rw [answer, Run.bind_eq_error.2 (.inr ⟨(), _, passed, stopped⟩)]

theorem Family.decode_gated (family : Family) (config : Config) (d : Definition) :
    Gated d.version (family.decode config d) (family.readBody config.maxCollection d) := by
  rw [Family.decode_eq_answer]
  exact .ofVersion d.version _

namespace Message

theorem decode_gated {schema : Schema} {type : String} {d : Definition} (found : schema.get? type = some d)
    (config : Config) : Gated d.version (decode schema config type) (readBody schema config.maxCollection type) := by
  have fields : readBody schema config.maxCollection type =
      readFields (readValue schema config.maxCollection Schema.maxDepth) d := by
    simp [readBody, Schema.require, found, MonadExcept.ofExcept]
  have whole : read schema config.maxCollection type =
      Cursor.version d.version >>= fun _ => readBody schema config.maxCollection type := by
    simp [read, fields, Schema.require, found, MonadExcept.ofExcept]
  rw [decode_eq_answer, whole]
  exact .ofVersion d.version _

/-- What a payload holds after its tag, if the message can be encoded. -/
theorem exists_body {schema : Schema} {type : String} {d : Definition} (found : schema.get? type = some d)
    {config : Config} {record : Record} {payload : Bytes} (encoded : encode schema config type record = .ok payload) :
    ∃ body, payload = Written.string d.version ++ body ∧
      ∀ b : Buffer, ∃ after, append schema type record b = .ok () after ∧ after.bytes = b.bytes ++ body := by
  rcases append_cases schema type record with ⟨e, body, known, all, alone⟩ | ⟨fault, -, alone⟩
  · obtain rfl : d = e := Option.some.inj (found.symm.trans known)
    refine ⟨body, Except.ok.inj (encoded.symm.trans (alone config)), fun b => ?_⟩
    obtain ⟨after, run, grows⟩ := all b
    exact ⟨after, run, grows.bytes⟩
  · cases encoded.symm.trans (alone config)

/-- The tag decides what a decoder makes of a payload, by a schema or by declared types. The tag and the
place of the body can be told beforehand; and a payload of one type is refused by any type with another
tag, with both tags in the fault. -/
theorem version_gate {schema : Schema} {type : String} {d : Definition} (found : schema.get? type = some d)
    (config : Config) :
    Gated d.version (decode schema config type) (readBody schema config.maxCollection type) ∧
    (∀ (family : Family) (declared : Definition),
      Gated declared.version (family.decode config declared) (family.readBody config.maxCollection declared)) ∧
    (∀ (other : Schema) (name : String) (e : Definition) (writing : Config) (record : Record) (payload suffix : Bytes),
      other.get? name = some e → (Utf8.encode e.version).length < Written.lengthBound →
      encode other writing name record = .ok payload →
        ∃ body, payload = Written.string e.version ++ body ∧
          (∀ b : Buffer, ∃ after, append other name record b = .ok () after ∧ after.bytes = b.bytes ++ body) ∧
          peekVersion (payload ++ suffix) = .ok (e.version, (Written.string e.version).length) ∧
          (e.version ≠ d.version →
            decode schema config type (payload ++ suffix) = .error (.versionMismatch d.version e.version))) ∧
    ∀ (family : Family) (declared e : Definition) (writing : Config) (v : Value) (suffix : Bytes),
      (Utf8.encode e.version).length < Written.lengthBound →
        Family.encode e writing v = Written.string e.version ++ v.wire ∧
        (∀ b : Buffer, (v.put b).bytes = b.bytes ++ v.wire) ∧
        peekVersion (Family.encode e writing v ++ suffix) = .ok (e.version, (Written.string e.version).length) ∧
        (e.version ≠ declared.version → family.decode config declared (Family.encode e writing v ++ suffix) =
          .error (.versionMismatch declared.version e.version)) := by
  refine ⟨decode_gated found config, fun family declared => family.decode_gated config declared, ?_, ?_⟩
  · intro other name e writing record payload suffix known small encoded
    obtain ⟨body, rfl, appended⟩ := exists_body known encoded
    have peeked := peekVersion_of_reads (Reads.string small) (body ++ suffix)
    rw [← List.append_assoc] at peeked
    refine ⟨body, rfl, appended, peeked, fun different => ?_⟩
    exact ((decode_gated found config).refused _ _ _ peeked different).1
  · intro family declared e writing v suffix small
    have payload : Family.encode e writing v = Written.string e.version ++ v.wire := by
      simp [Family.encode, Value.bytes_put]
    have peeked := peekVersion_of_reads (Reads.string small) (v.wire ++ suffix)
    rw [← List.append_assoc, ← payload] at peeked
    refine ⟨payload, Value.bytes_put v, peeked, fun different => ?_⟩
    exact ((family.decode_gated config declared).refused _ _ _ peeked different).1

/-- A message without fields under a tag of 66 bytes, whose length takes two. -/
def stamp : Schema := ⟨"1", [⟨"Stamp", "ééééééééééééééééééééééééééééééééé", []⟩]⟩

theorem version_gate_stamp :
    (∃ d, stamp.get? "Stamp" = some d ∧ encode stamp ⟨0, 0⟩ "Stamp" [] = .ok (Written.string d.version) ∧
      peekVersion (Written.string d.version ++ [2]) = .ok (d.version, 68) ∧
      decode node ⟨0, 1⟩ "Node" (Written.string d.version ++ [2]) = .error (.versionMismatch "n1" d.version)) ∧
    decode node ⟨0, 1⟩ "Node" [4, 110, 50, 7] = .error (.versionMismatch "n1" "n2") := by
  have found : node.get? "Node" =
      some ⟨"Node", "n1", [⟨"id", .int⟩, ⟨"children", .repeated (.message "Node")⟩]⟩ := rfl
  obtain ⟨gated, -, stamped, -⟩ := version_gate found ⟨0, 1⟩
  have known : stamp.get? "Stamp" = some ⟨"Stamp", "ééééééééééééééééééééééééééééééééé", []⟩ := rfl
  have encoded : encode stamp ⟨0, 0⟩ "Stamp" [] = .ok (Written.string "ééééééééééééééééééééééééééééééééé") := by
    decide +kernel
  obtain ⟨_, -, -, peeked, refused⟩ := stamped stamp "Stamp" _ ⟨0, 0⟩ [] _ [2] known (by decide +kernel) encoded
  refine ⟨⟨_, known, encoded, ?_, refused (by decide)⟩, ?_⟩
  · rw [peeked]
    decide +kernel
  · exact (gated.refused [4, 110, 50] "n2" 3 rfl (by decide)).2 [7]

end Message

end Wirepack
