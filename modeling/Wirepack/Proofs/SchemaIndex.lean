import Wirepack.Keyed
import Wirepack.Proofs.Validation

/-!
# The positions of messages

Looking a message up by going through the list takes longer with every message. A schema can keep, under
each name, the position of its message, and then has two things to update when a message is added. The
positions are in step with the list if each name leads where a search for it would. An addition
keeps them so, one that is refused too, and the schema with positions then answers as the one without.
-/

namespace Wirepack.Schema
set_option autoImplicit false

theorem add_eq_error {schema : Schema} {d : Definition} {fault : Fault} : schema.add d = .error fault ↔
    (∃ e ∈ schema.messages, e.name = d.name) ∧ fault = .invalidSchema d.name .duplicateMessage := by
  rw [← contains_iff, add]
  cases schema.contains d.name <;> simp [eq_comm]

theorem require_eq_ok {schema : Schema} {name : String} {d : Definition} :
    schema.require name = .ok d ↔ schema.get? name = some d := by
  unfold require
  cases schema.get? name <;> simp

theorem require_eq_error {schema : Schema} {name : String} {fault : Fault} :
    schema.require name = .error fault ↔ schema.get? name = none ∧ fault = .typeNotFound name := by
  unfold require
  cases schema.get? name <;> simp [eq_comm]

/-- Adds messages one after another. A message that is refused is passed over. The result lists those
that were added, and the schema after all of them. -/
def addEach : List Definition → Schema → List Definition × Schema
  | [], schema => ([], schema)
  | d :: calls, schema =>
    match schema.add d with
    | .ok after => (d :: (addEach calls after).1, (addEach calls after).2)
    | .error _ => addEach calls schema

/-- A schema and, under the name of each message, its position in the list. -/
structure Indexed extends Schema where
  index : Keyed Nat
  deriving DecidableEq, Repr

namespace Indexed

def empty (version : String) : Indexed := ⟨.empty version, []⟩

/-- Whether there is a position under that name. -/
def lists (s : Indexed) (name : String) : Bool := (s.index.get? name).isSome

/-- What is at the position under that name, if there is one. A position that leads out of the list
shows as a name with nothing there. -/
def find (s : Indexed) (name : String) : Option (Option Definition) :=
  (s.index.get? name).map fun position => s.messages[position]?

/-- Adds a message at the end: first its position, then the message. -/
def add (d : Definition) : EStateM Fault Indexed Unit := do
  if (← get).lists d.name then throw (.invalidSchema d.name .duplicateMessage)
  modify fun s => { s with index := s.index.insert d.name s.messages.length }
  modify fun s => { s with messages := s.messages ++ [d] }

/-- Adds messages one after another, each to what the one before left behind, whether that was refused or
not. -/
def addEach : List Definition → Indexed → List Definition × Indexed
  | [], s => ([], s)
  | d :: calls, s =>
    match add d s with
    | .ok () after => (d :: (addEach calls after).1, (addEach calls after).2)
    | .error _ after => addEach calls after

/-- Each name leads where a search of the list ends. -/
def InStep (s : Indexed) : Prop :=
  ∀ name, s.index.get? name = s.messages.findIdx? fun d => d.name == name

section Step

variable {s : Indexed} {d : Definition}

theorem add_of_listed (listed : s.lists d.name = true) :
    add d s = .error (.invalidSchema d.name .duplicateMessage) s := by
  refine Run.bind_eq_error.2 (.inr ⟨s, s, rfl, ?_⟩)
  rw [if_pos listed]
  rfl

theorem add_of_fresh (fresh : s.lists d.name = false) :
    add d s = .ok () ⟨⟨s.version, s.messages ++ [d]⟩, s.index.insert d.name s.messages.length⟩ := by
  refine Run.bind_eq_ok.2 ⟨s, s, rfl, ?_⟩
  rw [if_neg (Bool.eq_false_iff.1 fresh)]
  rfl

theorem InStep.lists_eq (inStep : s.InStep) (name : String) : s.lists name = s.toSchema.contains name := by
  rw [lists, inStep, List.findIdx?_isSome, contains, get?, List.isSome_find?]

/-- No position leads out of the list, and what it leads to is what a search finds. -/
theorem InStep.find_eq (inStep : s.InStep) (name : String) : s.find name = (s.toSchema.get? name).map some := by
  rw [find, inStep, get?, List.find?_eq_bind_findIdx?_getElem?]
  cases position : s.messages.findIdx? fun d => d.name == name with
  | none => rfl
  | some i =>
    obtain ⟨inside, -⟩ := List.findIdx?_eq_some_iff_getElem.1 position
    simp [inside]

theorem inStep_empty (version : String) : (empty version).InStep := fun _ => rfl

/-- The new message is where the list ended, and no name that was there before has moved. -/
theorem InStep.insert (inStep : s.InStep) (fresh : s.lists d.name = false) :
    InStep ⟨⟨s.version, s.messages ++ [d]⟩, s.index.insert d.name s.messages.length⟩ := by
  intro name
  -- A search goes on to the new message only if it has found nothing before.
  rw [Keyed.get?_insert, List.findIdx?_append, ← inStep]
  by_cases same : name = d.name
  · have missing : s.index.get? d.name = none := by simpa [lists] using fresh
    simp [same, missing]
  · simp [same, Ne.symm same]

/-- A refusal is the same with positions as without, and leaves everything as it was. -/
theorem InStep.add_eq_error (inStep : s.InStep) {after : Indexed} {fault : Fault} :
    add d s = .error fault after ↔ s.toSchema.add d = .error fault ∧ after = s := by
  rw [Schema.add, ← inStep.lists_eq]
  cases listed : s.lists d.name with
  | true => simp [add_of_listed listed, eq_comm]
  | false => simp [add_of_fresh listed]

theorem InStep.add_eq_ok (inStep : s.InStep) {after : Schema} (added : s.toSchema.add d = .ok after) :
    ∃ next : Indexed, add d s = .ok () next ∧ next.toSchema = after ∧ next.InStep := by
  obtain ⟨fresh, rfl⟩ := Schema.add_eq_ok.1 added
  rw [← inStep.lists_eq] at fresh
  exact ⟨_, add_of_fresh fresh, rfl, inStep.insert fresh⟩

end Step

section Run

variable {s final : Indexed} {calls added : List Definition}

/-- Induction on the calls: one that is refused goes on from the same schema, so that whatever was in step
before it is so after it. -/
theorem InStep.addEach (inStep : s.InStep) (built : s.toSchema.Built) (run : addEach calls s = (added, final)) :
    final.InStep ∧ final.toSchema.Built ∧ Schema.addEach calls s.toSchema = (added, final.toSchema) ∧
      final.toSchema = ⟨s.version, s.messages ++ added⟩ := by
  induction calls generalizing s added with
  | nil =>
    cases run
    exact ⟨inStep, built, rfl, by rw [List.append_nil]⟩
  | cons d calls ih =>
    rw [Indexed.addEach] at run
    rw [Schema.addEach]
    cases plain : s.toSchema.add d with
    | error fault =>
      rw [inStep.add_eq_error.2 ⟨plain, rfl⟩] at run
      exact ih inStep built run
    | ok after =>
      obtain ⟨next, accepted, rfl, kept⟩ := inStep.add_eq_ok plain
      rw [accepted] at run
      cases run
      obtain ⟨kept, built, same, whole⟩ := ih kept (built.add plain) rfl
      obtain ⟨-, extended⟩ := Schema.add_eq_ok.1 plain
      refine ⟨kept, built, by simp only [same], ?_⟩
      rw [whole, extended, List.append_assoc, List.singleton_append]

/-- Nothing is there to refuse the first call. -/
theorem head?_added {version : String} (run : addEach calls (empty version) = (added, final)) :
    added.head? = calls.head? := by
  cases calls with
  | nil =>
    cases run
    rfl
  | cons d calls =>
    obtain ⟨next, accepted, -⟩ := (inStep_empty version).add_eq_ok (Schema.add_eq_ok.2 ⟨rfl, rfl⟩)
    rw [Indexed.addEach, accepted] at run
    cases run
    rfl

end Run

/-- Whatever messages are added one after another, and whichever of them are refused, a schema with
positions ends up as one without. Its messages are those of the calls that succeeded, in order and under
distinct names, and the first call gives the root. The next call is refused exactly if a message of its
name is there, and then changes nothing. Every name is looked up to the one message of that name or to
nothing, and no position leads out of the list. -/
theorem additions_in_step {version : String} {calls added : List Definition} {final : Indexed}
    (run : addEach calls (empty version) = (added, final)) :
    Schema.addEach calls (.empty version) = (added, final.toSchema) ∧
    final.version = version ∧ final.messages = added ∧ (added.map Definition.name).Nodup ∧
    final.root? = calls.head? ∧
    (∀ d fault, final.toSchema.add d = .error fault ↔
      (∃ e ∈ added, e.name = d.name) ∧ fault = .invalidSchema d.name .duplicateMessage) ∧
    (∀ d fault after, add d final = .error fault after ↔
      (∃ e ∈ added, e.name = d.name) ∧ fault = .invalidSchema d.name .duplicateMessage ∧ after = final) ∧
    ∀ name,
      (∀ d, final.get? name = some d ↔ d ∈ added ∧ d.name = name) ∧
      final.find name = (final.get? name).map some ∧
      (final.contains name = true ↔ ∃ d ∈ added, d.name = name) ∧ final.lists name = final.contains name ∧
      (∀ d, final.require name = .ok d ↔ final.get? name = some d) ∧
      ∀ fault, final.require name = .error fault ↔ final.get? name = none ∧ fault = .typeNotFound name := by
  obtain ⟨inStep, built, same, whole⟩ := (inStep_empty version).addEach (.empty version) run
  have kept : final.version = version := congrArg Schema.version whole
  have listed : final.messages = added := congrArg Schema.messages whole
  have distinct := built.names_nodup
  rw [listed] at distinct
  refine ⟨same, kept, listed, distinct, ?_, ?_, ?_, ?_⟩
  · rw [root?, listed, head?_added run]
  · intro d fault
    rw [add_eq_error, listed]
  · intro d fault after
    rw [inStep.add_eq_error, add_eq_error, listed, and_assoc]
  · intro name
    refine ⟨fun d => ?_, inStep.find_eq name, ?_, inStep.lists_eq name, fun d => require_eq_ok,
      fun fault => require_eq_error⟩
    · rw [← listed]
      exact built.get?_eq_some_iff
    · rw [← listed]
      exact contains_iff

/-- The second of these has the name of the first, and the fourth that of the third. -/
def editions : List Definition :=
  [⟨"Old", "1", [⟨"x", .int⟩]⟩, ⟨"Old", "2", []⟩, ⟨"", "1", []⟩, ⟨"", "1", []⟩, ⟨"New", "1", [⟨"old", .message "Old"⟩]⟩]

/-- What is left of them, with positions. -/
def shelf : Indexed :=
  ⟨⟨"1", [⟨"Old", "1", [⟨"x", .int⟩]⟩, ⟨"", "1", []⟩, ⟨"New", "1", [⟨"old", .message "Old"⟩]⟩]⟩,
    [("Old", 0), ("", 1), ("New", 2)]⟩

theorem editions_in_step :
    addEach editions (empty "1") = (shelf.messages, shelf) ∧
    add ⟨"New", "2", []⟩ shelf = .error (.invalidSchema "New" .duplicateMessage) shelf ∧
    shelf.find "New" = some (some ⟨"New", "1", [⟨"old", .message "Old"⟩]⟩) := by
  have run : addEach editions (empty "1") = (shelf.messages, shelf) := by rfl
  obtain ⟨-, -, -, -, -, -, refused, lookups⟩ := additions_in_step run
  obtain ⟨known, found, -⟩ := lookups "New"
  refine ⟨run, (refused _ _ _).2 ⟨⟨⟨"New", "1", [⟨"old", .message "Old"⟩]⟩, by decide, rfl⟩, rfl, rfl⟩, ?_⟩
  rw [found, (known ⟨"New", "1", [⟨"old", .message "Old"⟩]⟩).2 ⟨by decide, rfl⟩]
  rfl

end Indexed

end Wirepack.Schema
