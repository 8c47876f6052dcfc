import Wirepack.Proofs.Appending
import Wirepack.Proofs.JsonParts

/-!
# Encoding and conversion to JSON give the same verdict

Both walk a message by its declared types, and each decides for itself what it accepts and what it
says of a value that it refuses. They meet the same values in the same order, so unless the encoder
stops because the message is too deep, either both succeed or both stop at the same place for the
same cause. Only the words differ, and only for an integer that is too large for its field.
-/

namespace Wirepack
set_option autoImplicit false

/-- The faults of a write and of a conversion have the same cause at the same place. -/
inductive Fault.Matches : Fault → Fault → Prop where
  | typeNotFound (name : String) : Matches (.typeNotFound name) (.typeNotFound name)
  | missingField (message field : String) : Matches (.missingField message field) (.missingField message field)
  | typeMismatch (path : Path) (expected : FieldType) (actual : String) :
      Matches (.typeMismatch path expected actual) (.typeMismatch path expected actual)
  /-- The write tells the number. -/
  | outOfRange (path : Path) (v : Int64) (outside : ¬(-0x80000000 ≤ v.toInt ∧ v.toInt < 0x80000000)) :
      Matches (.typeMismatch path .int ("long " ++ toString v.toInt ++ " out of int range"))
        (.typeMismatch path .int "long")

/-- What came of encoding, beside what came of a conversion. -/
inductive Verdict {α β : Type} : Except Fault α → Except Fault β → Prop where
  | tooDeep (name : String) (answer : Except Fault β) : Verdict (.error (.tooDeep name)) answer
  | succeed (a : α) (b : β) : Verdict (.ok a) (.ok b)
  | fail {fault other : Fault} (same : fault.Matches other) : Verdict (.error fault) (.error other)

theorem Verdict.bind {α β γ δ : Type} {written : Except Fault α} {answer : Except Fault β} {go : α → Except Fault γ}
    {next : β → Except Fault δ} (first : Verdict written answer) (rest : ∀ a b, Verdict (go a) (next b)) :
    Verdict (written >>= go) (answer >>= next) := by
  cases first with
  | tooDeep name => exact .tooDeep name _
  | succeed a b => exact rest a b
  | fail same => exact .fail same

/-- The buffer after a write, or why it failed. -/
def outcome (write : Write Unit) (b : Buffer) : Except Fault Buffer :=
  match write b with
  | .ok () after => .ok after
  | .error fault _ => .error fault

theorem outcome_bind (first second : Write Unit) (b : Buffer) :
    outcome (first >>= fun _ => second) b = outcome first b >>= outcome second := by
  simp only [outcome, Bind.bind, EStateM.bind]
  cases first b <;> rfl

/-- The write and the conversion give the same verdict, whatever the buffer holds. -/
def Agrees {α : Type} (write : Write Unit) (answer : Except Fault α) : Prop :=
  ∀ b, Verdict (outcome write b) answer

namespace Agrees

variable {α β : Type}

theorem modify (f : Buffer → Buffer) (a : α) : Agrees (modify f) (.ok a) :=
  fun b => .succeed (f b) a

theorem nothing (a : α) : Agrees (pure ()) (.ok a) :=
  fun b => .succeed b a

theorem throw {fault other : Fault} (same : fault.Matches other) :
    Agrees (throw fault) (.error other : Except Fault α) :=
  fun _ => .fail same

theorem tooDeep (name : String) (answer : Except Fault α) : Agrees (MonadExcept.throw (Fault.tooDeep name)) answer :=
  fun _ => .tooDeep name answer

theorem bind {first second : Write Unit} {answer : Except Fault α} {next : α → Except Fault β}
    (start : Agrees first answer) (rest : ∀ a, Agrees second (next a)) :
    Agrees (first >>= fun _ => second) (answer >>= next) := by
  intro b
  rw [outcome_bind]
  exact (start b).bind fun after a => rest a after

theorem map {write : Write Unit} {answer : Except Fault α} (f : α → β) (agrees : Agrees write answer) :
    Agrees write (do return f (← answer)) := by
  intro b
  rw [← bind_pure (outcome write b)]
  exact (agrees b).bind fun after a => .succeed after (f a)

theorem forM {write : α → Write Unit} {answer : α → Except Fault β} {xs : List α}
    (each : ∀ x ∈ xs, Agrees (write x) (answer x)) : Agrees (xs.forM write) (xs.mapM answer) := by
  induction xs with
  | nil => exact nothing []
  | cons x xs ih =>
    rw [List.mapM_cons]
    apply (each x List.mem_cons_self).bind
    intro y
    exact (ih fun z later => each z (List.mem_cons_of_mem x later)).map (y :: ·)

end Agrees

namespace Message

theorem valueToJson_scalar {type : FieldType} (scalar : type.isScalar) (schema : Schema) (path : Path) (v : Value) :
    valueToJson schema path type v =
      (scalarToJson? type v).elim (.error (.typeMismatch path type v.typeName)) .ok := by
  cases type with
  | repeated _ | message _ => cases scalar
  | _ =>
    rw [valueToJson]
    · cases scalarToJson? _ v <;> rfl
    all_goals simp

theorem found_matches {type : FieldType} {v : Value} (path : Path) (refused : type = .int → v.asInt? = none) :
    (Fault.typeMismatch path type (found type v)).Matches (.typeMismatch path type v.typeName) := by
  unfold found
  split
  · next n =>
    apply Fault.Matches.outOfRange
    intro inside
    have none := refused rfl
    simp [Value.asInt?, Value.asLong?, inside] at none
  · exact .typeMismatch path _ _

/-- A scalar that one of the two accepts, the other accepts too. -/
theorem putAccepted_agrees {α : Type} {put : Buffer → α → Buffer} {path : Path} {type : FieldType} {v : Value}
    {accepted : Option α} {json : Option Json} (both : accepted.isSome = json.isSome)
    (refused : accepted = none → type = .int → v.asInt? = none) :
    Agrees (putAccepted put path type v accepted) (json.elim (.error (.typeMismatch path type v.typeName)) .ok) := by
  cases accepted with
  | none =>
    obtain rfl : json = none := by simpa using both
    exact .throw (found_matches path (refused rfl))
  | some a =>
    obtain ⟨text, rfl⟩ := Option.isSome_iff_exists.1 both.symm
    exact .modify (put · a) text

theorem scalar_agrees {type : FieldType} (scalar : type.isScalar) (schema : Schema) (levels : Nat) (path : Path)
    (v : Value) : Agrees (putValue schema levels path type v) (valueToJson schema path type v) := by
  rw [valueToJson_scalar scalar]
  cases type with
  | repeated _ | message _ => cases scalar
  | int =>
    rw [putValue]
    exact putAccepted_agrees (by simp [scalarToJson?]) fun none _ => none
  | long =>
    rw [putValue]
    exact putAccepted_agrees (by simp [scalarToJson?]) (by simp)
  | float =>
    rw [putValue]
    exact putAccepted_agrees (by cases v <;> rfl) (by simp)
  | double =>
    rw [putValue]
    exact putAccepted_agrees (by simp [scalarToJson?]) (by simp)
  | bool =>
    rw [putValue]
    exact putAccepted_agrees (by cases v <;> rfl) (by simp)
  | string =>
    rw [putValue]
    exact putAccepted_agrees (by cases v <;> rfl) (by simp)

theorem fields_agree {schema : Schema} {put : Path → FieldType → Value → Write Unit}
    (each : ∀ path type v, Agrees (put path type v) (valueToJson schema path type v)) {type : String} {d : Definition}
    (found : schema.get? type = some d) (path : Path) (record : Record) :
    Agrees (putFields put d path record) (recordToJson schema path type record) := by
  rw [recordToJson_of_known found]
  refine Agrees.map _ (Agrees.forM fun f _ => Agrees.map (f.name, ·) ?_)
  unfold fieldToJson
  cases record.get? f.name with
  | none => exact .throw (.missingField d.name f.name)
  | some v => exact each (path.field f.name) f.type v

/-- A value that is no array where an array is declared, or no record where a message is. -/
theorem refused_agrees {type : FieldType} {v : Value} (compound : type.isScalar = false)
    (refused : ∀ schema path, valueToJson schema path type v = .error (.typeMismatch path type v.typeName))
    (schema : Schema) (path : Path) :
    Agrees (throw (.typeMismatch path type (found type v))) (valueToJson schema path type v) := by
  rw [refused]
  apply Agrees.throw
  apply found_matches
  rintro rfl
  cases compound

/-- Induction on the levels left to the encoder; the conversion counts none. -/
theorem putValue_agrees (schema : Schema) (levels : Nat) (path : Path) (type : FieldType) (v : Value) :
    Agrees (putValue schema levels path type v) (valueToJson schema path type v) := by
  induction levels using Nat.strongRecOn generalizing path type v with
  | ind levels ih =>
    cases type with
    | repeated item =>
      obtain _ | below := levels
      · exact .tooDeep path.render _
      · cases v with
        | array items =>
          rw [putValue, valueToJson, itemsToJson_eq]
          have counted : Agrees (modify (·.putLength items.length)) (.ok ()) := .modify _ ()
          have elements : ∀ pair ∈ items.zipIdx,
              Agrees (putValue schema below (path.index pair.2) item pair.1)
                (valueToJson schema (path.index pair.2) item pair.1) :=
            fun pair _ => ih below (Nat.lt_succ_self below) (path.index pair.2) item pair.1
          exact counted.bind fun _ => (Agrees.forM elements).map Json.array
        | _ => exact refused_agrees rfl (by simp [valueToJson, scalarToJson?]) schema path
    | message name =>
      cases v with
      | record record =>
        rw [putValue, valueToJson]
        simp only [Value.asRecord?, Schema.require]
        cases found : schema.get? name with
        | none =>
          rw [recordToJson_of_unknown found]
          exact .throw (.typeNotFound name)
        | some d =>
          obtain _ | below := levels
          · exact .tooDeep d.name _
          · exact fields_agree (ih below (Nat.lt_succ_self below)) found path record
      | _ =>
        rw [putValue]
        exact refused_agrees rfl (by simp [valueToJson, scalarToJson?]) schema path
    | _ => exact scalar_agrees rfl schema levels path v

theorem encode_eq_outcome {schema : Schema} {type : String} {d : Definition} (found : schema.get? type = some d)
    (record : Record) (config : Config) :
    encode schema config type record = (do
      return (← outcome (putBody schema d record)
        ((Buffer.withCapacity config.initialCapacity).putString d.version)).bytes) := by
  rw [encode_of_known found, outcome]
  cases putBody schema d record _ <;> rfl

theorem encode_agrees (schema : Schema) (config : Config) (type : String) (record : Record) :
    Verdict (encode schema config type record) (toJson schema type record) := by
  cases found : schema.get? type with
  | none =>
    rw [toJson, recordToJson_of_unknown found, encode, Schema.require, found]
    exact .fail (.typeNotFound type)
  | some d =>
    have body : Agrees (putBody schema d record) (toJson schema type record) :=
      fields_agree (putValue_agrees schema Schema.maxDepth) found .top record
    rw [encode_eq_outcome found, ← bind_pure (toJson schema type record)]
    exact (body _).bind fun after json => .succeed after.bytes json

/-- What can be encoded can be converted to JSON. -/
theorem toJson_of_encode {schema : Schema} {config : Config} {type : String} {record : Record} {payload : Bytes}
    (encoded : encode schema config type record = .ok payload) : ∃ json, toJson schema type record = .ok json := by
  have verdict := encode_agrees schema config type record
  rw [encoded] at verdict
  cases converted : toJson schema type record with
  | ok json => exact ⟨json, rfl⟩
  | error fault =>
    rw [converted] at verdict
    cases verdict

/-- On every message of every type, encoding says that it is too deep, or encoding and conversion to
JSON both succeed, or both fail for the same cause at the same place. -/
theorem encode_toJson_verdict (schema : Schema) (config : Config) (type : String) (record : Record) :
    (∃ name, encode schema config type record = .error (.tooDeep name)) ∨
    (∃ payload json, encode schema config type record = .ok payload ∧ toJson schema type record = .ok json) ∨
    ∃ fault other, encode schema config type record = .error fault ∧ toJson schema type record = .error other ∧
      fault.Matches other := by
  have verdict := encode_agrees schema config type record
  revert verdict
  generalize encode schema config type record = written
  generalize toJson schema type record = answer
  intro verdict
  cases verdict with
  | tooDeep name => exact .inl ⟨name, rfl⟩
  | succeed payload json => exact .inr (.inl ⟨payload, json, rfl, rfl⟩)
  | fail same => exact .inr (.inr ⟨_, _, rfl, rfl, same⟩)

end Message

end Wirepack
