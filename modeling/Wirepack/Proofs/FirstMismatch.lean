import Wirepack.Proofs.Conformance

/-!
# The first value that does not suit its type

Encoding that fails with a mismatch says where it stopped. The path that the fault holds leads along
declared types to a value that its type does not accept, its written form is its names with dots
between them and its indexes in brackets, and no place before it on the wire has anything wrong.
-/

namespace Wirepack
set_option autoImplicit false

/-- A step as it is written after others. -/
def Step.mark : Step → String
  | .field name => "." ++ name
  | .index position => "[" ++ toString position ++ "]"

namespace Path

/-- The names of a path joined by dots, and its indexes in brackets. -/
def joined (path : Path) : String :=
  match path.steps with
  | .field name :: rest => name ++ String.join (rest.map Step.mark)
  | steps => String.join (steps.map Step.mark)

theorem extend_eq {written : String} (started : written ≠ "") (step : Step) :
    extend written step = written ++ step.mark := by
  cases step with
  | field name => simp [extend, Step.mark, started, String.append_assoc]
  | index position => simp [extend, Step.mark, String.append_assoc]

theorem foldl_extend {written : String} (started : written ≠ "") (steps : List Step) :
    steps.foldl extend written = written ++ String.join (steps.map Step.mark) := by
  induction steps generalizing written with
  | nil => simp
  | cons step rest ih =>
    have longer : written ++ step.mark ≠ "" := by simp [started]
    rw [List.foldl_cons, extend_eq started, ih longer]
    simp [String.append_assoc]

/-- Only the first name has no dot before it, unless it is empty. -/
theorem render_eq_joined {path : Path} {name : String} {rest : List Step} (steps : path.steps = .field name :: rest)
    (named : name ≠ "") : path.render = path.joined := by
  rw [render, joined, steps]
  simpa [extend] using foldl_extend named rest

end Path

namespace Value

theorem Leads.render_eq_joined {lookup : String → Option Definition} {type : String} {record : Record}
    {steps : List Step} {inner : FieldType} {part : Value}
    (leads : (Value.record record).Leads lookup (.message type) steps inner part) (further : steps ≠ [])
    (named : ∀ d, lookup type = some d → ∀ f ∈ d.fields, f.name ≠ "") :
    Path.render ⟨steps⟩ = Path.joined ⟨steps⟩ := by
  cases leads with
  | here => exact absurd rfl further
  | field found member => exact Path.render_eq_joined rfl (named _ found _ member)

/-- What the type asks of a value apart from what it holds: of a scalar that it conforms, of any other
that it is an array or a record. -/
def Shaped (lookup : String → Option Definition) : FieldType → Value → Prop
  | .repeated _, v => ∃ items, v = .array items
  | .message _, v => ∃ fields, v = .record fields
  | type, v => v.Conforms lookup type

theorem shaped_iff (lookup : String → Option Definition) (type : FieldType) (v : Value) :
    v.Shaped lookup type ↔ type.takes v = true := by
  cases type with
  | repeated item => cases v <;> simp [Shaped, FieldType.takes, asArray?]
  | message name => cases v <;> simp [Shaped, FieldType.takes, asRecord?]
  | _ => exact conforms_scalar_iff rfl lookup v

/-- What is said of a value that the type does not accept: the name of its own type, or that it is out
of range. -/
inductive Described : FieldType → Value → String → Prop where
  | outOfRange (n : Int64) : Described .int (.long n) ("long " ++ toString n.toInt ++ " out of int range")
  | typeName {type : FieldType} {v : Value} (other : ¬ (type = .int ∧ ∃ n, v = .long n)) :
      Described type v v.typeName

theorem described_found (type : FieldType) (v : Value) : v.Described type (Message.found type v) := by
  unfold Message.found
  split
  · exact .outOfRange _
  · next other => exact .typeName fun ⟨isInt, n, isLong⟩ => other n isInt isLong

end Value

namespace Message

variable {schema : Schema}

/-- The place holds a value of the right shape, and if that is a record, its message is defined. -/
def Place.Sound (schema : Schema) : Place → Prop
  | .missing _ _ => False
  | .held _ type v => v.Shaped schema.get? type ∧ ∀ name, type = .message name → schema.contains name = true

theorem Place.sound_of_fault? {place : Place} (clear : place.fault? schema = none) : place.Sound schema := by
  cases place with
  | missing message field => cases clear
  | held path type v =>
    cases type with
    | repeated item =>
      rw [fault?] at clear
      split at clear
      · cases clear
      · exact ⟨(Value.shaped_iff _ _ _).2 (mismatch?_eq_none.1 clear), by rintro _ ⟨⟩⟩
    | message name =>
      obtain ⟨taken, clear⟩ := Option.or_eq_none_iff.1 clear
      refine ⟨(Value.shaped_iff _ _ _).2 (mismatch?_eq_none.1 taken), ?_⟩
      rintro _ ⟨⟩
      unfold messageFault? at clear
      split at clear
      · cases clear
      · next found => simp [Schema.contains, found]
    | _ => exact ⟨(Value.shaped_iff _ _ _).2 (mismatch?_eq_none.1 clear), by rintro _ ⟨⟩⟩

/-- A mismatch is about the first place on the wire where anything is wrong. -/
theorem encode_first_mismatch {schema : Schema} (named : ∀ d ∈ schema.messages, ∀ f ∈ d.fields, f.name ≠ "")
    {config : Config} {type : String} {record : Record} {path : Path} {expected : FieldType} {actual : String}
    (failed : encode schema config type record = .error (.typeMismatch path expected actual)) :
    ∃ before v after,
      recordPlaces schema .top type record = before ++ .held path expected v :: after ∧
      (∀ place ∈ before, place.Sound schema) ∧
      (Value.record record).Leads schema.get? (.message type) path.steps expected v ∧
      ¬ v.Shaped schema.get? expected ∧ v.Described expected actual ∧
      (Fault.typeMismatch path expected actual).details =
        [("field", path.joined), ("expected", expected.name), ("actual", actual)] := by
  cases found : schema.get? type with
  | none =>
    rw [encode_of_unknown found] at failed
    cases failed
  | some d =>
    have first := refusal_encode found config record
    rw [failed] at first
    obtain ⟨before, place, after, whole, wrong, clear⟩ := List.findSome?_eq_some_iff.1 first.symm
    cases Place.wrong_of_fault? wrong with
    | @mismatch _ _ v refused =>
      have member : .held path expected v ∈ recordPlaces schema .top type record := by simp [whole]
      obtain ⟨further, leads⟩ := held_mem_recordPlaces.1 member
      have written : path.render = path.joined :=
        leads.render_eq_joined further fun d known => named d (List.mem_of_find?_eq_some known)
      refine ⟨before, v, after, whole, fun place early => Place.sound_of_fault? (clear place early), leads, ?_,
        Value.described_found expected v, by rw [Fault.details, written]⟩
      rw [Value.shaped_iff, refused]
      exact Bool.false_ne_true

/-- In the second child, the first child has an id that is no int; what comes after it is wrong as well. -/
def grove : Record :=
  [("children", .array [.record leaf,
      .record [("id", .int 2), ("children", .array [.record [("children", .bool true), ("id", .long 4294967296)]])],
      .string "spare"]),
    ("id", .long 1)]

/-- The place of that id. -/
def wrongId : Path :=
  ⟨[.field "children", .index 1, .field "children", .index 0, .field "id"]⟩

theorem encode_grove_mismatch :
    encode node ⟨0, 0⟩ "Node" grove = .error (.typeMismatch wrongId .int "long 4294967296 out of int range") ∧
      wrongId.joined = "children[1].children[0].id" ∧
      ∃ before v after, recordPlaces node .top "Node" grove = before ++ .held wrongId .int v :: after ∧
        (∀ place ∈ before, place.Sound node) ∧ ¬ v.Shaped node.get? .int := by
  have failed : encode node ⟨0, 0⟩ "Node" grove =
      .error (.typeMismatch wrongId .int "long 4294967296 out of int range") := by rfl
  obtain ⟨before, v, after, whole, sound, -, refused, -, -⟩ := encode_first_mismatch (by decide) failed
  exact ⟨failed, by decide +kernel, before, v, after, whole, sound, refused⟩

end Message

end Wirepack
