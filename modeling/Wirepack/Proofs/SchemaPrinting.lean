import Wirepack.Proofs.SchemaParsing
import Wirepack.Proofs.Validation
import Wirepack.Schema.Text.Printer

/-!
# The canonical text of a schema is read back

A schema that was read from a text has names that can be written: its tag, its messages and its
fields are named by words of the text, and a type by its keyword, whichever alias stood there, or by
a word that is no keyword. So its canonical text is spelled out of phrases that declare it again,
and what was valid before is valid again. Empty lines make no difference.
-/

namespace Wirepack
set_option autoImplicit false

namespace Schema.Text

/-- Whether the characters make a word, of which the first is in `first` and the others in `more`. -/
def isWord (first more : Char → Bool) : List Char → Bool
  | [] => false
  | c :: tail => first c && tail.all more

variable {first more : Char → Bool} {word text rest : List Char}

theorem isWord_iff :
    isWord first more word = true ↔ ∃ c tail, word = c :: tail ∧ first c ∧ ∀ x ∈ tail, more x := by
  cases word with
  | nil => simp [isWord]
  | cons c tail => simp [isWord]

theorem word_of_isWord (valid : isWord first more word = true) (ends : ∀ c ∈ rest.head?, more c = false) :
    Word first more word (word ++ rest) rest :=
  ⟨rfl, isWord_iff.1 valid, ends⟩

abbrev isIdent : List Char → Bool := isWord identStart identChar

end Schema.Text

/-! ## Types -/

namespace FieldType

open Schema.Text (bare_of_ident brackets brackets_succ' isIdent isWord_iff split_append_brackets split_brackets)

theorem nest_repeated (dims : Nat) (type : FieldType) : nest dims (.repeated type) = .repeated (nest dims type) := by
  induction dims generalizing type with
  | zero => rfl
  | succ dims ih => rw [nest, nest, ih]

theorem nest_dimensions_base (type : FieldType) : nest type.dimensions type.base = type := by
  induction type with
  | repeated item ih => rw [dimensions, base, nest, nest_repeated, ih]
  | _ => rfl

theorem base_nest (dims : Nat) (type : FieldType) : (nest dims type).base = type.base := by
  induction dims generalizing type with
  | zero => rfl
  | succ dims ih => rw [nest, ih, base]

theorem dimensions_nest (dims : Nat) (type : FieldType) : (nest dims type).dimensions = type.dimensions + dims := by
  induction dims generalizing type with
  | zero => rfl
  | succ dims ih => rw [nest, ih, dimensions, Nat.add_right_comm, Nat.add_assoc]

theorem toList_name (type : FieldType) :
    type.name.toList = type.base.name.toList ++ brackets type.dimensions := by
  induction type with
  | repeated item ih =>
    rw [name, base, dimensions, String.toList_append, ih, brackets_succ', List.append_assoc]
    rfl
  | _ => simp [name, base, dimensions, brackets]

/-- What a name without brackets stands for. -/
def baseOf (name : String) : FieldType := (scalar? name).getD (.message name)

/-- The base of the type has a name that can be written and that stands for it. -/
structure Writable (type : FieldType) : Prop where
  ident : isIdent type.base.name.toList = true
  stands : baseOf type.base.name = type.base

theorem ofName_brackets {base : List Char} (ident : isIdent base = true) (pairs : Nat) :
    ofName (String.ofList (base ++ brackets pairs)) = nest pairs (baseOf (String.ofList base)) := by
  rw [ofName, split_brackets (isWord_iff.1 ident) pairs]
  rfl

/-- A type comes back from its name if the name of its base splits off and stands for the base. -/
theorem ofName_name_of_base {type : FieldType} (bare : ¬ ['[', ']'] <:+ type.base.name.toList)
    (stands : baseOf type.base.name = type.base) : ofName type.name = type := by
  have spelled : type.name = String.ofList (type.base.name.toList ++ brackets type.dimensions) := by
    rw [← toList_name, String.ofList_toList]
  rw [ofName, spelled, split_append_brackets bare, String.ofList_toList]
  show nest type.dimensions (baseOf type.base.name) = type
  rw [stands, nest_dimensions_base]

theorem Writable.ofName_name {type : FieldType} (writable : type.Writable) : ofName type.name = type :=
  ofName_name_of_base (bare_of_ident (isWord_iff.1 writable.ident)) writable.stands

theorem isScalar_of_scalar? {name : String} {type : FieldType} (found : scalar? name = some type) :
    type.isScalar = true := by
  unfold scalar? at found
  split at found <;> cases found <;> rfl

theorem writable_of_isScalar {type : FieldType} (scalar : type.isScalar = true) : type.Writable := by
  cases type with
  | message _ | repeated _ => cases scalar
  | _ => exact ⟨by decide, by decide⟩

theorem dimensions_of_isScalar {type : FieldType} (scalar : type.isScalar = true) : type.dimensions = 0 := by
  cases type with
  | repeated _ => cases scalar
  | _ => rfl

theorem baseOf_cases (name : String) : baseOf name = .message name ∨ (baseOf name).isScalar = true := by
  cases found : scalar? name with
  | none => exact .inl (by rw [baseOf, found]; rfl)
  | some type => exact .inr (by rw [baseOf, found]; exact isScalar_of_scalar? found)

theorem Writable.nest {type : FieldType} (writable : type.Writable) (dims : Nat) : (nest dims type).Writable :=
  ⟨by rw [base_nest]; exact writable.ident, by rw [base_nest]; exact writable.stands⟩

/-- An alias is replaced by its keyword; any other name stays as it is. -/
theorem writable_baseOf {name : String} (ident : isIdent name.toList = true) : (baseOf name).Writable := by
  rcases baseOf_cases name with message | scalar
  · rw [message]
    exact ⟨ident, message⟩
  · exact writable_of_isScalar scalar

theorem dimensions_baseOf (name : String) : (baseOf name).dimensions = 0 := by
  rcases baseOf_cases name with message | scalar
  · rw [message, dimensions]
    simp
  · exact dimensions_of_isScalar scalar

end FieldType

namespace Schema.Text

/-! ## Phrases -/

/-- The field can be written as a phrase. -/
structure WritableField (f : Field) : Prop where
  name : isIdent f.name.toList = true
  type : f.type.Writable
  shallow : f.type.dimensions ≤ 64

theorem writable_toField {phrase : FieldPhrase} {text rest : List Char} (spelled : phrase.Spelled text rest)
    (shallow : phrase.pairs ≤ 64) : WritableField phrase.toField := by
  cases spelled with
  | @mk base name _ _ _ _ _ pairs type _ named _ =>
    have ident : isIdent base = true := isWord_iff.2 type.ident.starts
    have means : (FieldPhrase.toField ⟨base, pairs, name⟩).type = .nest pairs (.baseOf (String.ofList base)) :=
      FieldType.ofName_brackets ident pairs
    constructor
    · rw [FieldPhrase.toField, String.toList_ofList]
      exact isWord_iff.2 named.starts
    · rw [means]
      exact (FieldType.writable_baseOf (by rwa [String.toList_ofList])).nest pairs
    · rw [means, FieldType.dimensions_nest, FieldType.dimensions_baseOf, Nat.zero_add]
      exact shallow

/-- The phrase of a field. -/
def FieldPhrase.ofField (f : Field) : FieldPhrase :=
  ⟨f.type.base.name.toList, f.type.dimensions, f.name.toList⟩

theorem toField_ofField {f : Field} (writable : f.type.Writable) : (FieldPhrase.ofField f).toField = f := by
  have typeName : (FieldPhrase.ofField f).typeName = f.type.name := by
    rw [FieldPhrase.typeName, FieldPhrase.ofField, ← FieldType.toList_name, String.ofList_toList]
  rw [FieldPhrase.toField, typeName, writable.ofName_name, FieldPhrase.ofField, String.ofList_toList]

/-- The phrase of a message. -/
def Phrase.ofDefinition (d : Definition) : Phrase :=
  .message d.name.toList (d.fields.map FieldPhrase.ofField)

/-- The phrases of a schema, its version first. -/
def phrases (schema : Schema) : List Phrase :=
  .version schema.version.toList :: schema.messages.map Phrase.ofDefinition

theorem tags_phrases (schema : Schema) : tags (phrases schema) = [schema.version] := by
  have none : ∀ messages : List Definition, tags (messages.map Phrase.ofDefinition) = [] := by
    intro messages
    simp [tags, Phrase.ofDefinition]
  rw [phrases, tags_cons, none]
  simp [tags]

theorem classes_phrases (schema : Schema) :
    classes (phrases schema) = schema.messages.map fun d => (d.name, d.fields.map FieldPhrase.ofField) := by
  simp [classes, phrases, Phrase.ofDefinition, List.filterMap_map, Function.comp_def]

/-! ## Spelling -/

/-- The characters of lines, each with its line feed. -/
def chars (lines : List String) : List Char := lines.flatMap fun line => line.toList ++ ['\n']

theorem chars_append (lines others : List String) : chars (lines ++ others) = chars lines ++ chars others :=
  List.flatMap_append

/-- The lines of a message and `gap` empty ones. -/
def spacedMessage (gap : Nat) (d : Definition) : List String := messageLines "" d ++ List.replicate gap ""

/-- The lines of a schema with `gap` empty ones after its version and after each message. -/
def spacedLines (gap : Nat) (schema : Schema) : List String :=
  ("version = " ++ schema.version) :: List.replicate gap "" ++ schema.messages.flatMap (spacedMessage gap)

/-- The canonical text of a schema with empty lines in it. -/
def spaced (gap : Nat) (schema : Schema) : String := String.join ((spacedLines gap schema).map (· ++ "\n"))

theorem print_eq_spaced (schema : Schema) : print schema = spaced 0 schema := by
  have plain : spacedMessage 0 = messageLines "" := by
    funext d
    exact List.append_nil _
  rw [print, spaced, lines, spacedLines, plain]
  rfl

theorem toList_spaced (gap : Nat) (schema : Schema) : (spaced gap schema).toList = chars (spacedLines gap schema) := by
  simp [spaced, chars, List.flatMap_map]

/-- The end of a line, and the empty lines after it. -/
def pause (gap : Nat) : List Char := '\n' :: chars (List.replicate gap "")

theorem gap_pause (gap : Nat) {text rest : List Char} (more : Gap text rest) : Gap (pause gap ++ text) rest := by
  induction gap with
  | zero => exact .blank (by simp) more
  | succ gap ih => exact .blank (by simp) ih

theorem spelled_field {f : Field} (writable : WritableField f) (rest : List Char) :
    (FieldPhrase.ofField f).Spelled (f.type.name.toList ++ ' ' :: (f.name.toList ++ ';' :: rest)) rest := by
  rw [FieldType.toList_name, List.append_assoc]
  have ends : ∀ c ∈ (brackets f.type.dimensions ++ ' ' :: (f.name.toList ++ ';' :: rest)).head?, identChar c = false := by
    cases f.type.dimensions with
    | zero | succ _ =>
      rintro c ⟨⟩
      decide
  refine .mk ⟨word_of_isWord writable.type.ident ends, by simp⟩ (.blank (by simp) (.none _))
    (word_of_isWord writable.name ?_) (.none _)
  rintro c ⟨⟩
  decide

/-- Every field takes the line feed before it, so one is left over at the end. -/
theorem spelled_fields {fields : List Field} (writable : ∀ f ∈ fields, WritableField f) (rest : List Char) :
    Sequence FieldPhrase.Spelled (fields.map FieldPhrase.ofField)
      ('\n' :: (chars (fields.map fieldLine) ++ rest)) ('\n' :: rest) := by
  induction fields with
  | nil => exact .none _
  | cons f fields ih =>
    rw [List.forall_mem_cons] at writable
    have text : '\n' :: (chars ((f :: fields).map fieldLine) ++ rest) =
        ['\n', ' ', ' ', ' ', ' '] ++ (f.type.name.toList ++ ' ' :: (f.name.toList ++ ';' ::
          '\n' :: (chars (fields.map fieldLine) ++ rest))) := by
      simp [chars, fieldLine]
    have indent (text : List Char) : Gap (['\n', ' ', ' ', ' ', ' '] ++ text) text :=
      .blank (by simp) (.blank (by simp) (.blank (by simp) (.blank (by simp) (.blank (by simp) (.none text)))))
    rw [text]
    exact .next (indent _) (spelled_field writable.1 _) (ih writable.2)

/-- The message can be written as a phrase. -/
structure WritableMessage (d : Definition) : Prop where
  name : isIdent d.name.toList = true
  fields : ∀ f ∈ d.fields, WritableField f

/-- The characters of a message, with `rest` after its brace. -/
def messageChars (d : Definition) (rest : List Char) : List Char :=
  ['c', 'l', 'a', 's', 's'] ++ ' ' :: (d.name.toList ++ ' ' :: '\x7b' :: '\n' ::
    (chars (d.fields.map fieldLine) ++ '\x7d' :: rest))

theorem spelled_message {d : Definition} (writable : WritableMessage d) (rest : List Char) :
    (Phrase.ofDefinition d).Spelled (messageChars d rest) rest := by
  refine .message ⟨rfl, ?_⟩ (.blank (by simp) (.none _)) (word_of_isWord writable.name ?_)
    (.blank (by simp) (.none _)) (spelled_fields writable.fields _) (.blank (by simp) (.none _))
  · rintro c ⟨⟩
    decide
  · rintro c ⟨⟩
    decide

theorem spelled_messages (gap : Nat) {messages : List Definition} (writable : ∀ d ∈ messages, WritableMessage d) :
    Sequence Phrase.Spelled (messages.map Phrase.ofDefinition)
      (pause gap ++ chars (messages.flatMap (spacedMessage gap))) (pause gap) := by
  induction messages with
  | nil => simpa [chars] using Sequence.none (pause gap)
  | cons d messages ih =>
    rw [List.forall_mem_cons] at writable
    have text : chars (spacedMessage gap d) ++ chars (messages.flatMap (spacedMessage gap)) =
        messageChars d (pause gap ++ chars (messages.flatMap (spacedMessage gap))) := by
      simp [chars, spacedMessage, messageLines, messageChars, pause]
    rw [List.flatMap_cons, chars_append, text]
    exact .next (gap_pause gap (.none _)) (spelled_message writable.1 _) (ih writable.2)

/-- A schema whose parts can be written as phrases, and that is valid. -/
structure Writable (schema : Schema) : Prop where
  tag : isWord tagChar tagChar schema.version.toList = true
  messages : ∀ d ∈ schema.messages, WritableMessage d
  versions : ∀ d ∈ schema.messages, d.version = schema.version
  nonempty : schema.messages ≠ []
  valid : ofDefinitions schema.version schema.messages = .ok schema

namespace Writable

variable {schema : Schema}

theorem spelled (writable : Writable schema) (gap : Nat) : Spelled (phrases schema) (chars (spacedLines gap schema)) := by
  have text : chars (spacedLines gap schema) = ['v', 'e', 'r', 's', 'i', 'o', 'n'] ++ ' ' :: '=' :: ' ' ::
      (schema.version.toList ++ (pause gap ++ chars (schema.messages.flatMap (spacedMessage gap)))) := by
    simp [chars, spacedLines, pause]
  have last : Gap (pause gap) [] := by simpa using gap_pause gap (.none [])
  rw [text]
  refine ⟨pause gap, .next (.none _) ?_ (spelled_messages gap writable.messages), last⟩
  refine .version ⟨rfl, ?_⟩ (.blank (by simp) (.none _)) (.blank (by simp) (.none _)) (word_of_isWord writable.tag ?_)
  · rintro c ⟨⟩
    decide
  · rintro c ⟨⟩
    decide

theorem definition_phrases (writable : Writable schema) :
    (classes (phrases schema)).map (definition schema.version) = schema.messages := by
  have each : ∀ d ∈ schema.messages, definition schema.version (d.name, d.fields.map FieldPhrase.ofField) = d := by
    intro d member
    have fields : (d.fields.map FieldPhrase.ofField).map FieldPhrase.toField = d.fields := by
      rw [List.map_map]
      refine List.map_congr_left (fun f inside => ?_) |>.trans (List.map_id _)
      exact toField_ofField ((writable.messages d member).fields f inside).type
    rw [definition, fields, ← writable.versions d member]
  rw [classes_phrases, List.map_map]
  exact (List.map_congr_left each).trans (List.map_id _)

theorem shallow_phrases (writable : Writable schema) : Shallow (phrases schema) := by
  intro c member f inside
  rw [classes_phrases] at member
  obtain ⟨d, there, rfl⟩ := List.mem_map.1 member
  obtain ⟨field, declared, rfl⟩ := List.mem_map.1 inside
  exact ((writable.messages d there).fields field declared).shallow

/-- A text that is spelled out of the phrases of a schema declares the schema. -/
theorem parse_eq_ok (writable : Writable schema) {source : String} (spelled : Spelled (phrases schema) source.toList) :
    parse source = .ok schema := by
  obtain ⟨declarations, matched, same⟩ := declarations?_complete spelled
  have single : (tags (phrases schema)).length ≤ 1 := by simp [tags_phrases]
  have some : classes (phrases schema) ≠ [] := by
    rw [classes_phrases]
    exact mt List.map_eq_nil_iff.1 writable.nonempty
  have drafted : declarations.foldlM (Draft.declare source.toList) {} = .ok (Draft.extend {} (phrases schema)) :=
    (declareAll_eq_ok same).2 ⟨single, writable.shallow_phrases, rfl⟩
  refine Text.parse_eq_ok.2 ⟨declarations, _, matched, drafted, ?_⟩
  refine (toSchema_extend_eq_ok single).2 ⟨schema.version, tags_phrases schema, some, ?_⟩
  rw [writable.definition_phrases]
  exact writable.valid

end Writable

/-! ## Texts that were read -/

theorem Sequence.spelled_of_mem {α : Type} {Spelled : α → List Char → List Char → Prop} {xs : List α}
    {text rest : List Char} (sequence : Sequence Spelled xs text rest) {x : α} (member : x ∈ xs) :
    ∃ start after, Spelled x start after := by
  induction sequence with
  | none => cases member
  | next _ first _ ih =>
    rcases List.mem_cons.1 member with rfl | later
    · exact ⟨_, _, first⟩
    · exact ih later

theorem exists_of_mem_tags {phrases : List Phrase} {tag : String} (member : tag ∈ tags phrases) :
    ∃ word, .version word ∈ phrases ∧ String.ofList word = tag := by
  obtain ⟨phrase, inside, found⟩ := List.mem_filterMap.1 member
  cases phrase with
  | version word => exact ⟨word, inside, Option.some.inj found⟩
  | message name fields => cases found

theorem exists_of_mem_classes {phrases : List Phrase} {c : String × List FieldPhrase} (member : c ∈ classes phrases) :
    ∃ name fields, .message name fields ∈ phrases ∧ (String.ofList name, fields) = c := by
  obtain ⟨phrase, inside, found⟩ := List.mem_filterMap.1 member
  cases phrase with
  | version word => cases found
  | message name fields => exact ⟨name, fields, inside, Option.some.inj found⟩

theorem writable_definition {name text rest : List Char} {fields : List FieldPhrase}
    (spelled : (Phrase.message name fields).Spelled text rest) (shallow : ∀ f ∈ fields, f.pairs ≤ 64) (tag : String) :
    WritableMessage (definition tag (String.ofList name, fields)) := by
  cases spelled with
  | message _ _ named _ members _ =>
    constructor
    · rw [definition, String.toList_ofList]
      exact isWord_iff.2 named.starts
    · intro f inside
      obtain ⟨phrase, member, rfl⟩ := List.mem_map.1 inside
      obtain ⟨start, after, spelled⟩ := members.spelled_of_mem member
      exact writable_toField spelled (shallow phrase member)

/-- What a text declares can be written. -/
theorem writable_of_parse {source : String} {schema : Schema} (parsed : parse source = .ok schema) :
    Writable schema := by
  obtain ⟨declarations, draft, matched, drafted, complete⟩ := parse_eq_ok.1 parsed
  obtain ⟨phrases, same, rest, sequence, -⟩ := declarations?_sound matched
  obtain ⟨single, shallow, rfl⟩ := (declareAll_eq_ok same).1 drafted
  obtain ⟨tag, one, some, valid⟩ := (toSchema_extend_eq_ok single).1 complete
  obtain rfl := eq_of_ofDefinitions valid
  constructor
  · obtain ⟨word, member, named⟩ := exists_of_mem_tags (one ▸ List.mem_cons_self)
    obtain ⟨start, after, spelled⟩ := sequence.spelled_of_mem member
    cases spelled with
    | version _ _ _ tagged =>
      rw [← named, String.toList_ofList]
      exact isWord_iff.2 tagged.starts
  · intro d member
    obtain ⟨c, there, rfl⟩ := List.mem_map.1 member
    obtain ⟨name, fields, inside, rfl⟩ := exists_of_mem_classes there
    obtain ⟨start, after, spelled⟩ := sequence.spelled_of_mem inside
    exact writable_definition spelled (shallow _ there) tag
  · intro d member
    obtain ⟨c, -, rfl⟩ := List.mem_map.1 member
    rfl
  · exact mt List.map_eq_nil_iff.1 some
  · exact valid

/-- The canonical text of a schema that was read is read as that schema, and so is the text with any
number of empty lines after its parts. -/
theorem parse_print {source : String} {schema : Schema} (parsed : parse source = .ok schema) :
    parse (print schema) = .ok schema ∧ ∀ gap, parse (spaced gap schema) = .ok schema := by
  have writable := writable_of_parse parsed
  have again : ∀ gap, parse (spaced gap schema) = .ok schema := by
    intro gap
    apply writable.parse_eq_ok
    rw [toList_spaced]
    exact writable.spelled gap
  refine ⟨?_, again⟩
  rw [print_eq_spaced]
  exact again 0

/-- Names that are keywords elsewhere, types by their aliases, and the version at the end. -/
def crowded : String :=
  "class class\x7bint32[][]version;int i;\x7d//\nclass int\x7b\x7dversion=1.v"

/-- What the text above declares. -/
def crowdedSchema : Schema :=
  ⟨"1.v", [⟨"class", "1.v", [⟨"version", .repeated (.repeated .int)⟩, ⟨"i", .int⟩]⟩, ⟨"int", "1.v", []⟩]⟩

theorem parse_print_crowded : parse crowded = .ok crowdedSchema ∧
    print crowdedSchema =
      "version = 1.v\nclass class \x7b\n    int[][] version;\n    int i;\n\x7d\nclass int \x7b\n\x7d\n" ∧
    parse (print crowdedSchema) = .ok crowdedSchema ∧ parse (spaced 1 crowdedSchema) = .ok crowdedSchema := by
  have parsed : parse crowded = .ok crowdedSchema := by decide +kernel
  obtain ⟨plain, again⟩ := parse_print parsed
  exact ⟨parsed, by decide, plain, again 1⟩

end Schema.Text
end Wirepack
