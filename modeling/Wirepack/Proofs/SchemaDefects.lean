import Mathlib.Data.List.Chain
import Wirepack.Proofs.Validation

/-!
# The defect that is reported is there

A schema that is refused is refused for a reason that it gives. For the fields of a message this is one
check at a time. A ring is cut out of the path of the walk that met a message again: the path leads from
one reference to the next and holds no message twice, so what lies between the two meetings is a ring,
and no shorter ring is inside it. Rings are looked for last, when all else has been found in order.
-/

namespace Wirepack.Schema
set_option autoImplicit false

/-! ## Fields -/

/-- A fault of the fields of `owner` that come after fields of the names `seen`, and what is wrong. -/
inductive FieldFault (schema : Schema) (owner : String) (seen : List String) (fields : List Field) : Fault → Prop where
  | duplicate (name : String) (again : ¬ (fields.map Field.name).Nodup ∨ ∃ f ∈ fields, f.name ∈ seen) :
      FieldFault schema owner seen fields (.invalidSchema owner (.duplicateField name))
  | dimensions {f : Field} (inside : f ∈ fields) (deep : 64 < f.type.dimensions) :
      FieldFault schema owner seen fields (.invalidSchema owner (.tooManyDimensions f.name))
  | unknown {f : Field} {target : String} (inside : f ∈ fields) (mentions : f.type.Mentions target)
      (missing : schema.contains target = false) :
      FieldFault schema owner seen fields (.invalidSchema owner (.unknownType target f.name))

variable {schema : Schema}

theorem FieldFault.cons {owner : String} {seen : List String} {f : Field} {rest : List Field} {fault : Fault}
    (later : schema.FieldFault owner (f.name :: seen) rest fault) : schema.FieldFault owner seen (f :: rest) fault := by
  cases later with
  | duplicate name again =>
    refine .duplicate name ?_
    rcases again with repeated | ⟨g, inside, old⟩
    · exact .inl fun distinct => repeated (List.nodup_cons.1 distinct).2
    · rcases List.mem_cons.1 old with same | before
      · exact .inl fun distinct => (List.nodup_cons.1 distinct).1 (same ▸ List.mem_map_of_mem inside)
      · exact .inr ⟨g, List.mem_cons_of_mem f inside, before⟩
  | dimensions inside deep => exact .dimensions (List.mem_cons_of_mem f inside) deep
  | unknown inside mentions missing => exact .unknown (List.mem_cons_of_mem f inside) mentions missing

theorem checkFields_eq_error {owner : String} {seen : List String} {fields : List Field} {fault : Fault}
    (failed : schema.checkFields owner seen fields = .error fault) : schema.FieldFault owner seen fields fault := by
  fun_induction checkFields schema owner seen fields with
  | case1 seen => cases failed
  | case2 seen f rest repeated =>
    cases failed
    exact .duplicate f.name (.inr ⟨f, List.mem_cons_self, repeated⟩)
  | case3 seen f rest fresh deep =>
    cases failed
    exact .dimensions List.mem_cons_self deep
  | case4 seen f rest fresh flat scalar ih => exact (ih failed).cons
  | case5 seen f rest fresh flat target refers known ih => exact (ih failed).cons
  | case6 seen f rest fresh flat target refers unknown =>
    cases failed
    have mentions := FieldType.messageName?_eq_some_iff.1 refers
    exact .unknown List.mem_cons_self mentions (Bool.eq_false_iff.2 unknown)

/-! ## Rings -/

/-- Messages of the schema, none of them twice, each of which refers to the next and the last of which
refers to the first. -/
structure Ring (schema : Schema) (first : String) (others : List String) : Prop where
  distinct : (first :: others).Nodup
  defined : ∀ name ∈ first :: others, ∃ d ∈ schema.messages, d.name = name
  linked : (first :: others ++ [first]).IsChain schema.Refers

/-- A path of references that leads to `name`, from the innermost message outwards. -/
structure Trail (schema : Schema) (path : List String) (name : String) : Prop where
  distinct : path.Nodup
  defined : ∀ outer ∈ path, ∃ d ∈ schema.messages, d.name = outer
  linked : (name :: path).IsChain fun target source => schema.Refers source target

theorem trail_nil (name : String) : schema.Trail [] name :=
  ⟨List.nodup_nil, by simp, .singleton name⟩

theorem Trail.cons {path : List String} {name target : String} {d : Definition} (trail : schema.Trail path name)
    (offPath : name ∉ path) (found : schema.get? name = some d) (member : target ∈ d.references) :
    schema.Trail (name :: path) target where
  distinct := List.nodup_cons.2 ⟨offPath, trail.distinct⟩
  defined := List.forall_mem_cons.2 ⟨⟨d, List.mem_of_find?_eq_some found, name_of_get? found⟩, trail.defined⟩
  linked := .cons_cons (refers_of_mem_references found member) trail.linked

/-- Where a path leads back to one of its messages, the part of it from there on is a ring. -/
theorem Trail.ring {path : List String} {name : String} (trail : schema.Trail path name) (onPath : name ∈ path) :
    ∃ others, Schema.ring path name = name :: others ++ [name] ∧ schema.Ring name others := by
  obtain ⟨inner, outer, rfl, fresh⟩ := List.eq_append_cons_of_mem onPath
  refine ⟨inner.reverse, ring_append fresh, ?_⟩
  constructor
  · have parts := List.nodup_append.1 trail.distinct
    rw [List.nodup_cons, List.mem_reverse, List.nodup_reverse]
    exact ⟨fresh, parts.1⟩
  · intro n member
    apply trail.defined
    rcases List.mem_cons.1 member with rfl | inside
    · exact onPath
    · exact List.mem_append_left _ (List.mem_reverse.1 inside)
  · have whole : (name :: inner ++ [name] ++ outer).IsChain fun target source => schema.Refers source target := by
      simpa using trail.linked
    have turned : name :: inner.reverse ++ [name] = (name :: inner ++ [name]).reverse := by simp
    rw [turned, List.isChain_reverse]
    exact whole.left_of_append

/-- A walk fails only where its path leads back. Induction on the walk. -/
theorem walk_eq_error {path done : List String} {name : String} {fault : Fault} (trail : schema.Trail path name)
    (failed : schema.walk path done name = .error fault) :
    ∃ first others, fault = .invalidSchema first (.cycle (first :: others ++ [first])) ∧ schema.Ring first others := by
  induction path, done, name using walk.induct schema with
  | case1 path done name finished =>
    rw [walk, if_pos finished] at failed
    cases failed
  | case2 path done name unfinished onPath =>
    rw [walk, if_neg unfinished, dif_pos onPath] at failed
    cases failed
    obtain ⟨others, names, ring⟩ := trail.ring onPath
    exact ⟨name, others, by rw [names], ring⟩
  | case3 path done name unfinished offPath missing =>
    rw [walk_of_undefined unfinished offPath missing] at failed
    cases failed
  | case4 path done name unfinished offPath d found shorter ih =>
    rw [walk_eq unfinished offPath found] at failed
    rcases Check.bind_eq_error.1 failed with below | ⟨after, -, stopped⟩
    · obtain ⟨target, member, before, wrong⟩ := Check.foldlM_eq_error below
      exact ih before target (trail.cons offPath found member) wrong
    · cases stopped

theorem checkRings_eq_error {fault : Fault} (failed : schema.checkRings = .error fault) :
    ∃ first others, fault = .invalidSchema first (.cycle (first :: others ++ [first])) ∧ schema.Ring first others := by
  rcases Check.bind_eq_error.1 failed with walked | ⟨after, -, stopped⟩
  · obtain ⟨d, -, before, wrong⟩ := Check.foldlM_eq_error walked
    exact walk_eq_error (trail_nil d.name) wrong
  · cases stopped

/-! ## Schemas -/

/-- A fault of a schema, and what is wrong. Rings are reported only where nothing else is. -/
inductive Refused (schema : Schema) : Fault → Prop where
  | empty (none : schema.messages = []) : Refused schema (.invalidSchema "schema" .noMessages)
  | fields {d : Definition} {fault : Fault} (member : d ∈ schema.messages)
      (wrong : schema.FieldFault d.name [] d.fields fault) : Refused schema fault
  | ring {first : String} {others : List String} (nonempty : schema.messages ≠ [])
      (passed : ∀ d ∈ schema.messages, schema.FieldsPass [] d.fields) (ring : schema.Ring first others) :
      Refused schema (.invalidSchema first (.cycle (first :: others ++ [first])))

theorem validate_eq_error {fault : Fault} (failed : schema.validate = .error fault) : schema.Refused fault := by
  by_cases empty : schema.messages = []
  · rw [validate_of_empty empty] at failed
    cases failed
    exact .empty empty
  · rw [validate_of_nonempty empty] at failed
    rcases Check.bind_eq_error.1 failed with inFields | ⟨⟨⟩, passed, inRings⟩
    · obtain ⟨d, member, wrong⟩ := Check.forM_eq_error inFields
      exact .fields member (checkFields_eq_error wrong)
    · obtain ⟨first, others, rfl, ring⟩ := checkRings_eq_error inRings
      exact .ring empty (fieldsPass_of_forM passed) ring

/-! ## Words

The reason for a ring begins with its own letter, so it is never taken for another. -/

theorem head?_append {start more : String} {c : Char} (starts : start.toList.head? = some c) :
    (start ++ more).toList.head? = some c := by
  rw [String.toList_append, List.head?_append, starts]
  rfl

theorem ne_cycle_of_head? {reason : String} {c : Char} (starts : reason.toList.head? = some c) (other : c ≠ 'r')
    (text : String) : reason ≠ "reference cycle: " ++ text := by
  rintro rfl
  have ring : ("reference cycle: " ++ text).toList.head? = some 'r' := head?_append rfl
  exact other (Option.some.inj (starts.symm.trans ring))

/-- No defect of fields is worded like a ring. -/
theorem FieldFault.reason_ne {owner name : String} {seen : List String} {fields : List Field} {defect : Defect}
    (wrong : schema.FieldFault owner seen fields (.invalidSchema name defect)) (text : String) :
    defect.reason ≠ "reference cycle: " ++ text := by
  cases wrong with
  | duplicate _ _ =>
    exact ne_cycle_of_head? (c := 'd') (head?_append (head?_append rfl)) (by decide) text
  | dimensions _ _ =>
    exact ne_cycle_of_head? (c := 'f') (head?_append (head?_append (head?_append (head?_append rfl)))) (by decide) text
  | unknown _ _ _ =>
    exact ne_cycle_of_head? (c := 'u') (head?_append (head?_append (head?_append (head?_append rfl)))) (by decide) text

/-- A cycle that is reported is a ring of messages, named from the message that is complained of back to
it, and the schema has nothing else wrong with it. -/
theorem reported_cycle_is_ring {name text : String} {defect : Defect}
    (failed : schema.validate = .error (.invalidSchema name defect))
    (reported : defect.reason = "reference cycle: " ++ text) :
    ∃ others, text = " -> ".intercalate (name :: others ++ [name]) ∧ defect = .cycle (name :: others ++ [name]) ∧
      schema.Ring name others ∧ schema.messages ≠ [] ∧
      ∀ d ∈ schema.messages, (d.fields.map Field.name).Nodup ∧ ∀ f ∈ d.fields, f.type.dimensions ≤ 64 ∧
        ∀ target, f.type.Mentions target → ∃ e ∈ schema.messages, e.name = target := by
  generalize invalid : Fault.invalidSchema name defect = fault at failed
  cases validate_eq_error failed with
  | empty none =>
    cases invalid
    exact absurd reported (ne_cycle_of_head? (c := 'n') rfl (by decide) text)
  | fields member wrong =>
    subst invalid
    exact absurd reported (wrong.reason_ne text)
  | @ring first others nonempty passed ring =>
    cases invalid
    refine ⟨others, (String.append_right_inj _).1 reported.symm, rfl, ring, nonempty, fun d member => ?_⟩
    have pass := passed d member
    refine ⟨pass.distinct, fun f inside => ⟨pass.dimensions f inside, fun target mentions => ?_⟩⟩
    exact contains_iff.1 (pass.known f inside target mentions)

/-- The road leads into a ring of two that it is not part of. -/
def roundabout : Schema :=
  ⟨"1", [⟨"Road", "1", [⟨"lanes", .int⟩, ⟨"exits", .repeated (.repeated (.message "Loop"))⟩]⟩,
    ⟨"Loop", "1", [⟨"back", .message "Back"⟩]⟩, ⟨"Back", "1", [⟨"on", .repeated (.message "Loop")⟩]⟩]⟩

theorem roundabout_is_ring :
    roundabout.validate = .error (.invalidSchema "Loop" (.cycle ["Loop", "Back", "Loop"])) ∧
      ∃ others, "Loop -> Back -> Loop" = " -> ".intercalate ("Loop" :: others ++ ["Loop"]) ∧
        roundabout.Ring "Loop" others := by
  have failed : roundabout.validate = .error (.invalidSchema "Loop" (.cycle ["Loop", "Back", "Loop"])) := by cbv
  have reported : (Defect.cycle ["Loop", "Back", "Loop"]).reason = "reference cycle: " ++ "Loop -> Back -> Loop" := by
    decide
  obtain ⟨others, named, -, ring, -⟩ := reported_cycle_is_ring failed reported
  exact ⟨failed, others, named, ring⟩

end Wirepack.Schema
