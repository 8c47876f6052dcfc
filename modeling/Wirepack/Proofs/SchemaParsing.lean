import Wirepack.Proofs.Runs
import Wirepack.Proofs.SchemaMatching

/-!
# Reading a schema text accepts its language and no more

The phrases of a text decide what is drafted from it: the version tags in a row, of which
there may be one, and the classes in order, whose fields may have so many array layers. A
text is read exactly if it is spelled out of such phrases and their classes form a valid
schema.
-/

namespace Wirepack.Schema.Text
set_option autoImplicit false

/-- The fields of every class have array layers within the limit. -/
def Shallow (phrases : List Phrase) : Prop := ∀ c ∈ classes phrases, ∀ f ∈ c.2, f.pairs ≤ 64

/-- The definition of a class in a schema of that version. -/
def definition (tag : String) (c : String × List FieldPhrase) : Definition :=
  ⟨c.1, tag, c.2.map FieldPhrase.toField⟩

/-- The draft with what the phrases declare added to it. -/
def Draft.extend (draft : Draft) (phrases : List Phrase) : Draft where
  version := (draft.version.toList ++ tags phrases).head?
  messages := draft.messages ++ (classes phrases).map fun c => (c.1, c.2.map FieldPhrase.toField)

theorem tags_cons (phrase : Phrase) (phrases : List Phrase) :
    tags (phrase :: phrases) = tags [phrase] ++ tags phrases := by
  cases phrase <;> rfl

theorem classes_cons (phrase : Phrase) (phrases : List Phrase) :
    classes (phrase :: phrases) = classes [phrase] ++ classes phrases := by
  cases phrase <;> rfl

theorem shallow_cons {phrase : Phrase} {phrases : List Phrase} :
    Shallow (phrase :: phrases) ↔ Shallow [phrase] ∧ Shallow phrases := by
  rw [Shallow, classes_cons, List.forall_mem_append, Shallow, Shallow]

theorem toField_eq_ok {text : List Char} {f : FieldText} {phrase : FieldPhrase} {field : Field}
    (means : f.Means phrase) :
    f.toField text = .ok field ↔ phrase.pairs ≤ 64 ∧ field = phrase.toField := by
  rw [FieldText.toField, means.dims, means.typeName, means.name]
  by_cases deep : maxDimensions < phrase.pairs
  · have : ¬ phrase.pairs ≤ 64 := Nat.not_le.2 deep
    simp [deep, this]
  · have : phrase.pairs ≤ 64 := Nat.not_lt.1 deep
    simp [deep, this, FieldPhrase.toField, eq_comm]

theorem toFields_eq_ok {text : List Char} {fields : List FieldText} {phrases : List FieldPhrase}
    {out : List Field} (same : List.Forall₂ FieldText.Means fields phrases) :
    fields.mapM (·.toField text) = .ok out ↔
      (∀ f ∈ phrases, f.pairs ≤ 64) ∧ out = phrases.map FieldPhrase.toField := by
  induction same generalizing out with
  | nil => simp [pure, Except.pure, eq_comm]
  | @cons f phrase fields phrases means _ ih =>
    rw [List.mapM_cons, Check.bind_eq_ok, List.forall_mem_cons, List.map_cons]
    constructor
    · rintro ⟨field, first, run⟩
      obtain ⟨_, others, ⟨⟩⟩ := Check.bind_eq_ok.1 run
      obtain ⟨shallow, rfl⟩ := (toField_eq_ok means).1 first
      obtain ⟨rest, rfl⟩ := ih.1 others
      exact ⟨⟨shallow, rest⟩, rfl⟩
    · rintro ⟨⟨shallow, rest⟩, rfl⟩
      refine ⟨_, (toField_eq_ok means).2 ⟨shallow, rfl⟩, ?_⟩
      exact Check.bind_eq_ok.2 ⟨_, ih.2 ⟨rest, rfl⟩, rfl⟩

/-- What one declaration does to a draft. -/
theorem declare_eq_ok {text : List Char} {d : Declaration} {phrase : Phrase} {draft draft' : Draft}
    (means : d.Means phrase) :
    draft.declare text d = .ok draft' ↔
      (draft.version.toList ++ tags [phrase]).length ≤ 1 ∧ Shallow [phrase] ∧
        draft' = draft.extend [phrase] := by
  obtain ⟨version, messages⟩ := draft
  cases means with
  | version tag =>
    cases version <;> simp [Draft.declare, Draft.extend, tags, classes, Shallow, eq_comm]
  | @message name fields phrases same =>
    have shallow : Shallow [.message name phrases] ↔ ∀ f ∈ phrases, f.pairs ≤ 64 := by
      simp [Shallow, classes]
    have single : (version.toList ++ tags [.message name phrases]).length ≤ 1 := by
      cases version <;> simp [tags]
    rw [Draft.declare, Check.bind_eq_ok, shallow]
    constructor
    · rintro ⟨out, run, ⟨⟩⟩
      obtain ⟨within, rfl⟩ := (toFields_eq_ok same).1 run
      refine ⟨single, within, ?_⟩
      cases version <;> simp [Draft.extend, tags, classes]
    · rintro ⟨_, within, rfl⟩
      refine ⟨_, (toFields_eq_ok same).2 ⟨within, rfl⟩, ?_⟩
      cases version <;> simp [Draft.extend, tags, classes, pure, Except.pure]

theorem toList_head? {α : Type} {xs : List α} (single : xs.length ≤ 1) : xs.head?.toList = xs := by
  match xs, single with
  | [], _ => rfl
  | [_], _ => rfl

/-- What all declarations together do to a draft. -/
theorem declareAll_eq_ok {text : List Char} {declarations : List Declaration}
    {phrases : List Phrase} {draft draft' : Draft}
    (same : List.Forall₂ Declaration.Means declarations phrases) :
    declarations.foldlM (Draft.declare text) draft = .ok draft' ↔
      (draft.version.toList ++ tags phrases).length ≤ 1 ∧ Shallow phrases ∧
        draft' = draft.extend phrases := by
  induction same generalizing draft with
  | nil =>
    obtain ⟨version, messages⟩ := draft
    cases version <;> simp [tags, classes, Shallow, Draft.extend, pure, Except.pure, eq_comm]
  | @cons d phrase declarations phrases means _ ih =>
    have step (single : (draft.version.toList ++ tags [phrase]).length ≤ 1) :
        (draft.extend [phrase]).version.toList = draft.version.toList ++ tags [phrase] :=
      toList_head? single
    have twice (single : (draft.version.toList ++ tags [phrase]).length ≤ 1) :
        (draft.extend [phrase]).extend phrases = draft.extend (phrase :: phrases) := by
      rw [Draft.extend, step single]
      simp [Draft.extend, tags_cons phrase phrases, classes_cons phrase phrases]
    rw [List.foldlM_cons, Check.bind_eq_ok, shallow_cons, tags_cons, ← List.append_assoc]
    constructor
    · rintro ⟨_, first, run⟩
      obtain ⟨single, shallow, rfl⟩ := (declare_eq_ok means).1 first
      rw [ih, step single, twice single] at run
      exact ⟨run.1, ⟨shallow, run.2.1⟩, run.2.2⟩
    · rintro ⟨single, ⟨shallow, others⟩, rfl⟩
      have first : (draft.version.toList ++ tags [phrase]).length ≤ 1 :=
        Nat.le_trans (List.sublist_append_left ..).length_le single
      refine ⟨_, (declare_eq_ok means).2 ⟨first, shallow, rfl⟩, ?_⟩
      rw [ih, step first, twice first]
      exact ⟨single, others, rfl⟩

theorem toSchema_eq_ok {draft : Draft} {schema : Schema} :
    draft.toSchema = .ok schema ↔
      ∃ tag, draft.version = some tag ∧ draft.messages ≠ [] ∧
        ofDefinitions tag (draft.messages.map fun m => ⟨m.1, tag, m.2⟩) = .ok schema := by
  obtain ⟨version, messages⟩ := draft
  cases version with
  | none => simp [Draft.toSchema]
  | some tag => cases messages <;> simp [Draft.toSchema]

theorem parse_eq_ok {source : String} {schema : Schema} :
    parse source = .ok schema ↔
      ∃ declarations draft, declarations? source.toList = some declarations ∧
        declarations.foldlM (Draft.declare source.toList) {} = .ok draft ∧
        draft.toSchema = .ok schema := by
  unfold parse
  dsimp only
  cases declarations? source.toList with
  | none => simp [throw, throwThe, MonadExceptOf.throw]
  | some declarations => simp [Check.bind_eq_ok]

/-- A draft that starts empty is a schema if what was added to it is one. -/
theorem toSchema_extend_eq_ok {phrases : List Phrase} {schema : Schema}
    (single : (tags phrases).length ≤ 1) :
    (Draft.extend {} phrases).toSchema = .ok schema ↔
      ∃ tag, tags phrases = [tag] ∧ classes phrases ≠ [] ∧
        ofDefinitions tag ((classes phrases).map (definition tag)) = .ok schema := by
  have only (tag : String) : (tags phrases).head? = some tag ↔ tags phrases = [tag] := by
    rw [← Option.toList_eq_singleton_iff, toList_head? single]
  have each (tag : String) :
      definition tag = fun c => ⟨c.1, tag, c.2.map FieldPhrase.toField⟩ := rfl
  simp [toSchema_eq_ok, Draft.extend, only, Function.comp_def, each]

/-- A text is read exactly if it is spelled, from its start to its end, as declarations of
which one is a version and some are classes, no field has more than 64 pairs of brackets, and
the classes in their order form a schema of that version. -/
theorem parse_eq_ok_iff {source : String} {schema : Schema} :
    parse source = .ok schema ↔
      ∃ phrases tag, Spelled phrases source.toList ∧
        tags phrases = [tag] ∧ classes phrases ≠ [] ∧
        (∀ c ∈ classes phrases, ∀ f ∈ c.2, f.pairs ≤ 64) ∧
        ofDefinitions tag ((classes phrases).map (definition tag)) = .ok schema := by
  rw [parse_eq_ok]
  constructor
  · rintro ⟨declarations, draft, matched, drafted, complete⟩
    obtain ⟨phrases, same, spelled⟩ := declarations?_sound matched
    obtain ⟨single, shallow, rfl⟩ := (declareAll_eq_ok same).1 drafted
    obtain ⟨tag, one, some, valid⟩ := (toSchema_extend_eq_ok single).1 complete
    exact ⟨phrases, tag, spelled, one, some, shallow, valid⟩
  · rintro ⟨phrases, tag, spelled, one, some, shallow, valid⟩
    obtain ⟨declarations, matched, same⟩ := declarations?_complete spelled
    have single : (tags phrases).length ≤ 1 := by simp [one]
    refine ⟨declarations, _, matched, (declareAll_eq_ok same).2 ⟨single, shallow, rfl⟩, ?_⟩
    exact (toSchema_extend_eq_ok single).2 ⟨tag, one, some, valid⟩

end Wirepack.Schema.Text
