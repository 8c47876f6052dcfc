import Mathlib.Data.List.Nodup
import Mathlib.Logic.Relation
import Wirepack.Proofs.Runs
import Wirepack.Schema.Validate

/-!
# Validity of schemas

`Valid` says what a schema must be in terms of its messages alone; `validate` answers exactly
that. The walk that looks for rings shares what it has finished between its starts. Its success
shows each message accessible, that is, without an infinite chain of references below it; its
failure needs a message on the path that leads to it, which is a ring.
-/

namespace Wirepack
set_option autoImplicit false

/-- The type refers to the message `name`, through any number of array layers. -/
inductive FieldType.Mentions : FieldType → String → Prop where
  | message (name : String) : Mentions (.message name) name
  | repeated {item : FieldType} {name : String} (inside : Mentions item name) : Mentions (.repeated item) name

theorem FieldType.messageName?_eq_some_iff {type : FieldType} {name : String} :
    type.messageName? = some name ↔ type.Mentions name := by
  constructor
  · intro found
    induction type with
    | message other =>
      obtain rfl : other = name := by simpa [messageName?] using found
      exact .message other
    | repeated item ih => exact .repeated (ih found)
    | _ => cases found
  · intro mentions
    induction mentions with
    | message name => rfl
    | repeated inside ih => exact ih

namespace Schema

/-- A schema made by adding messages, one after another, to one without any. An addition that is
refused leaves the schema as it was. -/
inductive Built : Schema → Prop where
  | empty (version : String) : Built (empty version)
  | add {schema after : Schema} {d : Definition} (built : Built schema) (added : schema.add d = .ok after) :
      Built after

/-- The message `source` has a field that refers to `target`. -/
def Refers (schema : Schema) (source target : String) : Prop :=
  ∃ d ∈ schema.messages, d.name = source ∧ ∃ f ∈ d.fields, f.type.Mentions target

/-- What a schema must be for its messages to be encoded. -/
structure Valid (schema : Schema) : Prop where
  nonempty : schema.messages ≠ []
  distinct : ∀ d ∈ schema.messages, (d.fields.map Field.name).Nodup
  dimensions : ∀ d ∈ schema.messages, ∀ f ∈ d.fields, f.type.dimensions ≤ 64
  known : ∀ source target, schema.Refers source target → ∃ d ∈ schema.messages, d.name = target
  acyclic : ∀ name, ¬ Relation.TransGen schema.Refers name name

theorem contains_iff {schema : Schema} {name : String} :
    schema.contains name = true ↔ ∃ d ∈ schema.messages, d.name = name := by
  simp [contains, get?]

theorem add_eq_ok {schema after : Schema} {d : Definition} : schema.add d = .ok after ↔
    schema.contains d.name = false ∧ after = { schema with messages := schema.messages ++ [d] } := by
  unfold add
  cases schema.contains d.name <;> simp [eq_comm]

theorem eq_of_addAll {schema after : Schema} {definitions : List Definition}
    (added : definitions.foldlM add schema = .ok after) : after = ⟨schema.version, schema.messages ++ definitions⟩ := by
  induction definitions generalizing schema with
  | nil =>
    cases added
    rw [List.append_nil]
  | cons d rest ih =>
    rw [List.foldlM_cons] at added
    obtain ⟨middle, first, others⟩ := Check.bind_eq_ok.1 added
    obtain ⟨-, rfl⟩ := add_eq_ok.1 first
    simpa using ih others

theorem messages_of_addAll {schema after : Schema} {definitions : List Definition}
    (added : definitions.foldlM add schema = .ok after) : after.messages = schema.messages ++ definitions := by
  rw [eq_of_addAll added]

theorem addAll_of_nodup {schema : Schema} {definitions : List Definition}
    (distinct : ((schema.messages ++ definitions).map Definition.name).Nodup) :
    definitions.foldlM add schema = .ok ⟨schema.version, schema.messages ++ definitions⟩ := by
  induction definitions generalizing schema with
  | nil => simp [Pure.pure, Except.pure]
  | cons d rest ih =>
    have split : schema.messages ++ d :: rest = schema.messages ++ [d] ++ rest := by simp
    rw [split] at distinct ⊢
    have fresh : schema.contains d.name = false := by
      rw [Bool.eq_false_iff]
      intro there
      obtain ⟨e, member, named⟩ := contains_iff.1 there
      rw [List.map_append, List.map_append, List.nodup_append, List.nodup_append] at distinct
      exact distinct.1.2.2 e.name (List.mem_map_of_mem member) d.name (by simp) named
    rw [List.foldlM_cons]
    exact Check.bind_eq_ok.2 ⟨_, add_eq_ok.2 ⟨fresh, rfl⟩, ih distinct⟩

theorem eq_of_ofDefinitions {version : String} {definitions : List Definition} {schema : Schema}
    (formed : ofDefinitions version definitions = .ok schema) : schema = ⟨version, definitions⟩ := by
  obtain ⟨built, added, rest⟩ := Check.bind_eq_ok.1 formed
  obtain ⟨⟨⟩, -, ⟨⟩⟩ := Check.bind_eq_ok.1 rest
  exact eq_of_addAll added

theorem Built.names_nodup {schema : Schema} (built : schema.Built) :
    (schema.messages.map Definition.name).Nodup := by
  induction built with
  | empty version => exact List.nodup_nil
  | @add schema after d _ added ih =>
    obtain ⟨fresh, rfl⟩ := add_eq_ok.1 added
    rw [List.map_append, List.nodup_append]
    refine ⟨ih, by simp, ?_⟩
    rintro _ old _ new rfl
    obtain ⟨e, member, named⟩ := List.mem_map.1 old
    have there : schema.contains d.name = true := contains_iff.2 ⟨e, member, by simpa [named] using new⟩
    rw [fresh] at there
    cases there

theorem Built.addAll {schema after : Schema} {definitions : List Definition} (built : schema.Built)
    (added : definitions.foldlM Schema.add schema = .ok after) : after.Built :=
  (Check.foldlM_eq_ok added built fun _ _ _ _ before step => before.add step).1

theorem name_of_get? {schema : Schema} {name : String} {d : Definition} (found : schema.get? name = some d) :
    d.name = name := by
  simpa using List.find?_some found

/-- Where no message has two definitions, the one found is the one that is there. -/
theorem get?_eq_some_iff {schema : Schema} (distinct : (schema.messages.map Definition.name).Nodup)
    {name : String} {d : Definition} : schema.get? name = some d ↔ d ∈ schema.messages ∧ d.name = name := by
  constructor
  · intro found
    exact ⟨List.mem_of_find?_eq_some found, name_of_get? found⟩
  · rintro ⟨member, rfl⟩
    cases found : schema.get? d.name with
    | none => simpa using List.find?_eq_none.1 found d member
    | some e =>
      have there : e ∈ schema.messages := List.mem_of_find?_eq_some found
      exact congrArg some (List.inj_on_of_nodup_map distinct there member (name_of_get? found))

theorem Built.get?_eq_some_iff {schema : Schema} (built : schema.Built) {name : String} {d : Definition} :
    schema.get? name = some d ↔ d ∈ schema.messages ∧ d.name = name :=
  Schema.get?_eq_some_iff built.names_nodup

/-- What is asked of the fields of a message that come after fields of the names `seen`. -/
structure FieldsPass (schema : Schema) (seen : List String) (fields : List Field) : Prop where
  fresh : ∀ f ∈ fields, f.name ∉ seen
  distinct : (fields.map Field.name).Nodup
  dimensions : ∀ f ∈ fields, f.type.dimensions ≤ 64
  known : ∀ f ∈ fields, ∀ target, f.type.Mentions target → schema.contains target = true

theorem fieldsPass_cons {schema : Schema} {seen : List String} {f : Field} {rest : List Field}
    (fresh : f.name ∉ seen) (flat : f.type.dimensions ≤ 64)
    (known : ∀ target, f.type.Mentions target → schema.contains target = true) :
    schema.FieldsPass seen (f :: rest) ↔ schema.FieldsPass (f.name :: seen) rest := by
  constructor
  · intro pass
    have distinct := List.nodup_cons.1 pass.distinct
    refine ⟨fun g later => ?_, distinct.2, fun g later => pass.dimensions g (List.mem_cons_of_mem f later),
      fun g later => pass.known g (List.mem_cons_of_mem f later)⟩
    rw [List.mem_cons, not_or]
    refine ⟨fun same => distinct.1 ?_, pass.fresh g (List.mem_cons_of_mem f later)⟩
    exact same ▸ List.mem_map_of_mem later
  · intro pass
    refine ⟨List.forall_mem_cons.2 ⟨fresh, fun g later => ?_⟩, List.nodup_cons.2 ⟨?_, pass.distinct⟩,
      List.forall_mem_cons.2 ⟨flat, pass.dimensions⟩, List.forall_mem_cons.2 ⟨known, pass.known⟩⟩
    · exact fun old => pass.fresh g later (List.mem_cons_of_mem _ old)
    · intro again
      obtain ⟨g, later, same⟩ := List.mem_map.1 again
      exact pass.fresh g later (same ▸ List.mem_cons_self)

theorem checkFields_eq_ok {schema : Schema} {owner : String} {seen : List String} {fields : List Field} :
    schema.checkFields owner seen fields = .ok () ↔ schema.FieldsPass seen fields := by
  fun_induction checkFields schema owner seen fields with
  | case1 seen =>
    have pass : schema.FieldsPass seen [] := ⟨by simp, by simp, by simp, by simp⟩
    simp [pass]
  | case2 seen f rest repeated =>
    simp only [reduceCtorEq, false_iff]
    exact fun pass => pass.fresh f List.mem_cons_self repeated
  | case3 seen f rest fresh deep =>
    simp only [reduceCtorEq, false_iff]
    exact fun pass => Nat.not_le.2 deep (pass.dimensions f List.mem_cons_self)
  | case4 seen f rest fresh flat scalar ih =>
    rw [ih, fieldsPass_cons fresh (Nat.not_lt.1 flat)]
    intro target mentions
    simp [FieldType.messageName?_eq_some_iff.2 mentions] at scalar
  | case5 seen f rest fresh flat target refers known ih =>
    rw [ih, fieldsPass_cons fresh (Nat.not_lt.1 flat)]
    intro other mentions
    obtain rfl : target = other :=
      Option.some.inj (refers.symm.trans (FieldType.messageName?_eq_some_iff.2 mentions))
    exact known
  | case6 seen f rest fresh flat target refers unknown =>
    simp only [reduceCtorEq, false_iff]
    exact fun pass =>
      unknown (pass.known f List.mem_cons_self target (FieldType.messageName?_eq_some_iff.1 refers))

section Rings

variable {schema : Schema}

/-- No infinite chain of references starts at `name`. -/
def Grounded (schema : Schema) (name : String) : Prop :=
  Acc (fun target source => schema.Refers source target) name

theorem Grounded.not_ring {name : String} (grounded : schema.Grounded name) :
    ¬ Relation.TransGen schema.Refers name name := by
  induction grounded with
  | intro name _ ih =>
    intro ring
    obtain ⟨next, refers, back⟩ := Relation.TransGen.head'_iff.1 ring
    exact ih next refers (Relation.TransGen.tail' back refers)

theorem refers_of_mem_references {name target : String} {d : Definition} (found : schema.get? name = some d)
    (member : target ∈ d.references) : schema.Refers name target := by
  obtain ⟨f, inside, refers⟩ := List.mem_filterMap.1 member
  have there : d ∈ schema.messages := List.mem_of_find?_eq_some found
  exact ⟨d, there, name_of_get? found, f, inside, FieldType.messageName?_eq_some_iff.1 refers⟩

theorem Built.mem_references {name target : String} {d : Definition} (built : schema.Built)
    (found : schema.get? name = some d) : target ∈ d.references ↔ schema.Refers name target := by
  refine ⟨refers_of_mem_references found, ?_⟩
  rintro ⟨e, member, named, f, inside, mentions⟩
  obtain rfl : d = e := Option.some.inj (found.symm.trans (built.get?_eq_some_iff.2 ⟨member, named⟩))
  exact List.mem_filterMap.2 ⟨f, inside, FieldType.messageName?_eq_some_iff.2 mentions⟩

/-- The ring is cut out of the path where the path meets the message first, going outwards. -/
theorem ring_append {inner outer : List String} {name : String} (fresh : name ∉ inner) :
    ring (inner ++ name :: outer) name = name :: inner.reverse ++ [name] := by
  have apart : ∀ x ∈ inner, decide (x ≠ name) = true := by
    intro x inside
    exact decide_eq_true fun same => fresh (same ▸ inside)
  rw [ring, List.takeWhile_append_of_pos apart]
  simp

theorem walk_eq {path done : List String} {name : String} {d : Definition} (unfinished : name ∉ done)
    (offPath : name ∉ path) (found : schema.get? name = some d) :
    schema.walk path done name = (do
      let done ← d.references.foldlM (fun done target => schema.walk (name :: path) done target) done
      return name :: done) := by
  rw [walk, if_neg unfinished, dif_neg offPath]
  split <;> simp_all

theorem walk_of_undefined {path done : List String} {name : String} (unfinished : name ∉ done)
    (offPath : name ∉ path) (missing : schema.get? name = none) : schema.walk path done name = .ok done := by
  rw [walk, if_neg unfinished, dif_neg offPath]
  split <;> simp_all

theorem Built.grounded_of_undefined (built : schema.Built) {name : String} (missing : schema.get? name = none) :
    schema.Grounded name := by
  refine Acc.intro name fun target refers => ?_
  obtain ⟨d, member, named, -⟩ := refers
  rw [built.get?_eq_some_iff.2 ⟨member, named⟩] at missing
  cases missing

/-- A walk that succeeds leaves grounded messages behind. -/
theorem grounded_of_walk (built : schema.Built) {path done after : List String} {name : String}
    (settled : ∀ n ∈ done, schema.Grounded n) (run : schema.walk path done name = .ok after) :
    schema.Grounded name ∧ ∀ n ∈ after, schema.Grounded n := by
  induction path, done, name using walk.induct schema generalizing after with
  | case1 path done name finished =>
    rw [walk, if_pos finished] at run
    cases run
    exact ⟨settled name finished, settled⟩
  | case2 path done name unfinished onPath =>
    rw [walk, if_neg unfinished, dif_pos onPath] at run
    cases run
  | case3 path done name unfinished offPath missing =>
    rw [walk_of_undefined unfinished offPath missing] at run
    cases run
    exact ⟨built.grounded_of_undefined missing, settled⟩
  | case4 path done name unfinished offPath d found shorter ih =>
    rw [walk_eq unfinished offPath found] at run
    obtain ⟨below, fold, rest⟩ := Check.bind_eq_ok.1 run
    cases rest
    obtain ⟨kept, walked⟩ := Check.foldlM_eq_ok fold settled fun target _ before after ground run =>
      (ih before target ground run).2
    have grounded : schema.Grounded name := by
      refine Acc.intro name fun target refers => ?_
      obtain ⟨before, after, ground, run⟩ := walked target ((built.mem_references found).2 refers)
      exact (ih before target ground run).1
    exact ⟨grounded, List.forall_mem_cons.2 ⟨grounded, kept⟩⟩

/-- Without rings a walk cannot meet a message of its path again. -/
theorem walk_succeeds (built : schema.Built) (acyclic : ∀ name, ¬ Relation.TransGen schema.Refers name name)
    (path done : List String) (name : String)
    (leads : ∀ outer ∈ path, Relation.TransGen schema.Refers outer name) :
    ∃ after, schema.walk path done name = .ok after := by
  induction path, done, name using walk.induct schema with
  | case1 path done name finished => exact ⟨done, by rw [walk, if_pos finished]⟩
  | case2 path done name unfinished onPath => exact absurd (leads name onPath) (acyclic name)
  | case3 path done name unfinished offPath missing =>
    exact ⟨done, walk_of_undefined unfinished offPath missing⟩
  | case4 path done name unfinished offPath d found shorter ih =>
    have below : ∀ target ∈ d.references, ∀ before,
        ∃ after, schema.walk (name :: path) before target = .ok after := by
      intro target member before
      have refers := (built.mem_references found).1 member
      refine ih before target fun outer onPath => ?_
      rcases List.mem_cons.1 onPath with rfl | above
      · exact .single refers
      · exact .tail (leads outer above) refers
    obtain ⟨after, fold⟩ := Check.foldlM_ok below done
    exact ⟨name :: after, by rw [walk_eq unfinished offPath found, fold]; rfl⟩

/-- Where rings were looked for and none was found, every name is grounded: all that are defined were
walked. -/
theorem grounded_of_checkRings (built : schema.Built) (passed : schema.checkRings = .ok ()) (name : String) :
    schema.Grounded name := by
  cases found : schema.get? name with
  | none => exact built.grounded_of_undefined found
  | some d =>
    obtain ⟨after, fold, -⟩ := Check.bind_eq_ok.1 passed
    obtain ⟨-, walked⟩ := Check.foldlM_eq_ok (I := fun done => ∀ n ∈ done, schema.Grounded n) fold (by simp)
      fun d _ before after settled run => (grounded_of_walk built settled run).2
    obtain ⟨before, after, settled, run⟩ := walked d (List.mem_of_find?_eq_some found)
    exact name_of_get? found ▸ (grounded_of_walk built settled run).1

theorem checkRings_eq_ok (built : schema.Built) :
    schema.checkRings = .ok () ↔ ∀ name, ¬ Relation.TransGen schema.Refers name name := by
  constructor
  · intro passed name
    exact (grounded_of_checkRings built passed name).not_ring
  · intro acyclic
    have walks : ∀ d ∈ schema.messages, ∀ before, ∃ after, schema.walk [] before d.name = .ok after :=
      fun d _ before => walk_succeeds built acyclic [] before d.name (by simp)
    obtain ⟨after, fold⟩ := Check.foldlM_ok walks []
    exact Check.bind_eq_ok.2 ⟨after, fold, rfl⟩

end Rings

theorem validate_of_empty {schema : Schema} (empty : schema.messages = []) :
    schema.validate = .error (.invalidSchema "schema" .noMessages) := by
  unfold validate
  rw [if_pos (List.isEmpty_iff.2 empty)]
  rfl

theorem validate_of_nonempty {schema : Schema} (nonempty : schema.messages ≠ []) : schema.validate =
    (schema.messages.forM (fun d => schema.checkFields d.name [] d.fields) >>= fun _ => schema.checkRings) := by
  unfold validate
  rw [if_neg (mt List.isEmpty_iff.1 nonempty)]

theorem fieldsPass_of_forM {schema : Schema}
    (passed : schema.messages.forM (fun d => schema.checkFields d.name [] d.fields) = .ok ()) :
    ∀ d ∈ schema.messages, schema.FieldsPass [] d.fields :=
  fun d member => checkFields_eq_ok.1 (Check.forM_eq_ok.1 passed d member)

theorem validate_eq_ok {schema : Schema} :
    schema.validate = .ok () ↔ schema.messages ≠ [] ∧
      (∀ d ∈ schema.messages, schema.FieldsPass [] d.fields) ∧ schema.checkRings = .ok () := by
  by_cases empty : schema.messages = []
  · simp [validate_of_empty empty, empty]
  · rw [validate_of_nonempty empty, Check.bind_eq_ok]
    constructor
    · rintro ⟨⟨⟩, fields, rings⟩
      exact ⟨empty, fieldsPass_of_forM fields, rings⟩
    · rintro ⟨-, fields, rings⟩
      exact ⟨(), Check.forM_eq_ok.2 fun d member => checkFields_eq_ok.2 (fields d member), rings⟩

theorem Built.valid_of_validate {schema : Schema} (built : schema.Built) (passed : schema.validate = .ok ()) :
    schema.Valid := by
  obtain ⟨nonempty, fields, rings⟩ := validate_eq_ok.1 passed
  refine ⟨nonempty, fun d member => (fields d member).distinct, fun d member => (fields d member).dimensions,
    ?_, (checkRings_eq_ok built).1 rings⟩
  rintro source target ⟨d, member, -, f, inside, mentions⟩
  exact contains_iff.1 ((fields d member).known f inside target mentions)

theorem Valid.fieldsPass {schema : Schema} (valid : schema.Valid) {d : Definition} (member : d ∈ schema.messages) :
    schema.FieldsPass [] d.fields :=
  ⟨by simp, valid.distinct d member, valid.dimensions d member, fun f inside target mentions =>
    contains_iff.2 (valid.known d.name target ⟨d, member, rfl, f, inside, mentions⟩)⟩

/-- A schema passes exactly if it is valid. -/
theorem validate_eq_ok_iff_valid {schema : Schema} (built : schema.Built) :
    schema.validate = .ok () ↔ schema.Valid := by
  constructor
  · exact built.valid_of_validate
  · intro valid
    refine validate_eq_ok.2 ⟨valid.nonempty, fun d member => valid.fieldsPass member, ?_⟩
    exact (checkRings_eq_ok built).2 valid.acyclic

/-- Two ways lead from `Top` to `Base`, so the walk finds `Base` finished the second time. -/
def diamond : Schema :=
  ⟨"1", [⟨"Top", "1", [⟨"left", .message "Left"⟩, ⟨"right", .repeated (.message "Right")⟩]⟩,
    ⟨"Left", "1", [⟨"base", .message "Base"⟩]⟩,
    ⟨"Right", "1", [⟨"base", .repeated (.repeated (.message "Base"))⟩]⟩,
    ⟨"Base", "1", []⟩]⟩

theorem diamond_built : diamond.Built := by
  have added : diamond.messages.foldlM add (empty "1") = .ok diamond := by rfl
  exact (Built.empty "1").addAll added

theorem diamond_valid : diamond.Built ∧ diamond.validate = .ok () ∧ diamond.Valid := by
  have passed : diamond.validate = .ok () := by cbv
  exact ⟨diamond_built, passed, (validate_eq_ok_iff_valid diamond_built).1 passed⟩

end Schema
end Wirepack
