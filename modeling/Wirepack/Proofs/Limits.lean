import Wirepack.Proofs.Appending
import Wirepack.Proofs.Extension
import Wirepack.Proofs.Layers

/-!
# What the configuration decides

A configuration has no say in what a message is. The limit on counts is asked where an array starts,
and only whether to go on: a higher limit changes nothing but what failed for the lower one, and no
array is longer than the limit it was read under. The capacity of a buffer decides when it grows, and
never what it holds.
-/

namespace Wirepack
set_option autoImplicit false

/-- Unless the strict read finds an array too long, the loose one gives the same value or fault and
stops at the same place. -/
def Relaxes {α : Type} (strict loose : Read α) : Prop :=
  ∀ c, (∀ length limit position after, strict c ≠ .error (.lengthExceeded length limit position) after) →
    loose c = strict c

namespace Relaxes

variable {α β : Type}

theorem refl (read : Read α) : Relaxes read read :=
  fun _ _ => rfl

theorem bind {first other : Read α} {next nextOther : α → Read β} (start : Relaxes first other)
    (goesOn : ∀ a, Relaxes (next a) (nextOther a)) : Relaxes (first >>= next) (other >>= nextOther) := by
  intro c allowed
  have same : other c = first c := by
    apply start
    intro length limit position after stopped
    exact allowed length limit position after (Run.bind_eq_error.2 (.inl stopped))
  simp only [Bind.bind, EStateM.bind, same]
  cases run : first c with
  | error fault after => rfl
  | ok a middle =>
    apply goesOn
    intro length limit position after stopped
    exact allowed length limit position after (Run.bind_eq_error.2 (.inr ⟨a, middle, run, stopped⟩))

theorem map {read other : Read α} (f : α → β) (relaxes : Relaxes read other) :
    Relaxes (do return f (← read)) (do return f (← other)) :=
  relaxes.bind fun _ => .refl _

theorem times {read other : Read α} (relaxes : Relaxes read other) (count : Nat) :
    Relaxes (Cursor.times read count) (Cursor.times other count) := by
  induction count with
  | zero => exact .refl _
  | succ count ih => exact relaxes.bind fun first => ih.map (first :: ·)

theorem fields {read other : FieldType → Read Value} (each : ∀ type, Relaxes (read type) (other type))
    (declared : List Field) : Relaxes (readNamed read declared) (readNamed other declared) := by
  induction declared with
  | nil => exact .refl _
  | cons f declared ih =>
    simp only [readNamed, List.mapM_cons]
    exact ((each f.type).map (f.name, ·)).bind fun entry => ih.map (entry :: ·)

/-- Only here is the limit asked. -/
theorem count {strict loose : Nat} (le : strict ≤ loose) : Relaxes (Cursor.count strict) (Cursor.count loose) := by
  refine .bind (.refl _) fun position => .bind (.refl _) fun value => ?_
  intro c allowed
  by_cases long : strict < value
  · rw [if_pos long] at allowed
    exact absurd rfl (allowed value strict position c)
  · rw [if_neg long, if_neg (by omega)]

theorem answer_eq {strict loose : Read α} (relaxes : Relaxes strict loose) {data : Bytes}
    (allowed : ∀ length limit position, answer strict data ≠ .error (.lengthExceeded length limit position)) :
    answer loose data = answer strict data := by
  have same : loose (.start data) = strict (.start data) := by
    apply relaxes
    intro length limit position after stopped
    apply allowed length limit position
    rw [answer, stopped]
  rw [answer, answer, same]

end Relaxes

section Readers

variable {read : Nat → Nat → FieldType → Read Value} {strict loose : Nat}

/-- One layer asks the limit for its own count, and leaves the rest to its parts. -/
theorem Layer.relaxes {levels : Nat} {parts : Nat → Read Value} (layer : Layer read levels parts)
    (le : strict ≤ loose) (below : ∀ fewer < levels, ∀ type, Relaxes (read strict fewer type) (read loose fewer type)) :
    Relaxes (parts strict) (parts loose) := by
  cases layer with
  | scalar make simple yields => exact .refl _
  | refused fault => exact .refl _
  | @array levels item =>
    have element := below levels (Nat.lt_succ_self levels) item
    exact (Relaxes.count le).bind fun count => (element.times count).map Value.array
  | @record levels declared arrange kept =>
    have fields := Relaxes.fields (below levels (Nat.lt_succ_self levels)) declared
    exact fields.map fun record => Value.record (arrange record)

/-- Induction on the levels left. -/
theorem Layers.relaxes (layers : Layers read) (le : strict ≤ loose) (levels : Nat) (type : FieldType) :
    Relaxes (read strict levels type) (read loose levels type) := by
  induction levels using Nat.strongRecOn generalizing type with
  | ind levels ih => exact (layers levels type).relaxes le ih

theorem Message.readFields_relaxes (le : strict ≤ loose) (schema : Schema) (d : Definition) :
    Relaxes (readFields (readValue schema strict Schema.maxDepth) d)
      (readFields (readValue schema loose Schema.maxDepth) d) :=
  (Relaxes.fields ((readValue_layers schema).relaxes le Schema.maxDepth) d.fields).map Keyed.ofList

theorem Message.readBody_relaxes (le : strict ≤ loose) (schema : Schema) (type : String) :
    Relaxes (readBody schema strict type) (readBody schema loose type) :=
  .bind (.refl _) fun d => readFields_relaxes le schema d

theorem Message.read_relaxes (le : strict ≤ loose) (schema : Schema) (type : String) :
    Relaxes (Message.read schema strict type) (Message.read schema loose type) :=
  .bind (.refl _) fun d => .bind (.refl _) fun _ => readFields_relaxes le schema d

/-- The levels go by the bytes left and not by the limit. -/
theorem Family.readBody_relaxes (le : strict ≤ loose) (family : Family) (d : Definition) :
    Relaxes (family.readBody strict d) (family.readBody loose d) := by
  intro c allowed
  exact family.readField_layers.relaxes le (family.levels c.remaining) (.message d.name) c allowed

theorem Family.read_relaxes (le : strict ≤ loose) (family : Family) (d : Definition) :
    Relaxes (family.read strict d) (family.read loose d) :=
  .bind (.refl _) fun _ => readBody_relaxes le family d

end Readers

namespace Value

/-- The part stands somewhere in the value, or is all of it. -/
inductive Contains : Value → Value → Prop where
  | self (v : Value) : Contains v v
  | item {items : List Value} {v part : Value} (member : v ∈ items) (inside : Contains v part) :
      Contains (.array items) part
  | field {fields : Record} {field : String × Value} {part : Value} (member : field ∈ fields)
      (inside : Contains field.2 part) : Contains (.record fields) part

/-- No array in the value has more than `limit` elements. -/
def Sized (limit : Nat) (v : Value) : Prop := ∀ items, v.Contains (.array items) → items.length ≤ limit

theorem sized_record {limit : Nat} {fields : Record} (all : ∀ field ∈ fields, field.2.Sized limit) :
    (Value.record fields).Sized limit := by
  intro items contains
  cases contains with
  | field member inside => exact all _ member items inside

theorem sized_hereditary (limit : Nat) : Hereditary limit fun _ v => v.Sized limit where
  scalar levels v simple := by
    intro items contains
    cases contains with
    | self _ | item _ _ | field _ _ => cases simple
  array levels items allowed all := by
    intro inner contains
    cases contains with
    | self _ => exact allowed
    | item member inside => exact all _ member inner inside
  record levels fields all := sized_record all

end Value

theorem Message.sized_of_decode {schema : Schema} {config : Config} {type : String} {data : Bytes} {record : Record}
    (decoded : decode schema config type data = .ok record) : (Value.record record).Sized config.maxCollection := by
  rw [decode] at decoded
  split at decoded
  · next after run =>
    cases decoded
    obtain ⟨-, -, all⟩ := read_keeps (Value.sized_hereditary config.maxCollection) schema type _ after record run
    exact Value.sized_record all
  · cases decoded

theorem Family.sized_of_decode {family : Family} {config : Config} {d : Definition} {data : Bytes} {v : Value}
    (decoded : family.decode config d data = .ok v) : v.Sized config.maxCollection := by
  rw [decode] at decoded
  split at decoded
  · next after run =>
    cases decoded
    obtain ⟨-, -, sized⟩ := read_keeps (Value.sized_hereditary config.maxCollection) family d _ after v run
    exact sized
  · cases decoded

theorem Message.encode_config (schema : Schema) (config other : Config) (type : String) (record : Record) :
    encode schema config type record = encode schema other type record := by
  rcases append_cases schema type record with ⟨d, data, -, -, encoded⟩ | ⟨fault, -, failed⟩
  · rw [encoded config, encoded other]
  · rw [failed config, failed other]

theorem Family.encode_config (d : Definition) (config other : Config) (v : Value) :
    encode d config v = encode d other v := by
  simp [encode, Value.bytes_put]

/-- A configuration is transparent, to messages read and written by a schema and to values of declared
types alike. Under a higher limit a payload is read as under a lower one, from any place and with the same
bytes taken, unless an array was too long for the lower. Under either, no array is longer than the limit.
What encoding gives does not depend on the configuration at all. -/
theorem Message.config_transparent (schema : Schema) (type : String) (family : Family) (d : Definition) :
    (∀ strict loose : Config, strict.maxCollection ≤ loose.maxCollection →
      Relaxes (read schema strict.maxCollection type) (read schema loose.maxCollection type) ∧
      Relaxes (readBody schema strict.maxCollection type) (readBody schema loose.maxCollection type) ∧
      (∀ data, (∀ length limit position,
          decode schema strict type data ≠ .error (.lengthExceeded length limit position)) →
        decode schema loose type data = decode schema strict type data) ∧
      Relaxes (family.read strict.maxCollection d) (family.read loose.maxCollection d) ∧
      Relaxes (family.readBody strict.maxCollection d) (family.readBody loose.maxCollection d) ∧
      ∀ data, (∀ length limit position,
          family.decode strict d data ≠ .error (.lengthExceeded length limit position)) →
        family.decode loose d data = family.decode strict d data) ∧
    (∀ config data record items, decode schema config type data = .ok record →
      (Value.record record).Contains (.array items) → items.length ≤ config.maxCollection) ∧
    (∀ config data v items, family.decode config d data = .ok v → v.Contains (.array items) →
      items.length ≤ config.maxCollection) ∧
    (∀ config other record, encode schema config type record = encode schema other type record) ∧
    ∀ config other v, Family.encode d config v = Family.encode d other v := by
  refine ⟨fun strict loose le => ?_, fun config data record items decoded => sized_of_decode decoded items,
    fun config data v items decoded => Family.sized_of_decode decoded items,
    fun config other => encode_config schema config other type, Family.encode_config d⟩
  have payload := read_relaxes le schema type
  have declared := Family.read_relaxes le family d
  simp only [decode_eq_answer, Family.decode_eq_answer]
  exact ⟨payload, readBody_relaxes le schema type, fun data => payload.answer_eq,
    declared, Family.readBody_relaxes le family d, fun data => declared.answer_eq⟩

/-- A limit of one is enough for a node with one child, and a limit of two to find the end of the scores. -/
theorem Message.config_transparent_node :
    decode node ⟨0, 0⟩ "Node" [4, 110, 49, 216, 4, 2, 14, 0] = .error (.lengthExceeded 1 0 5) ∧
      decode node ⟨64, 9⟩ "Node" [4, 110, 49, 216, 4, 2, 14, 0] =
        .ok [("id", .int 300), ("children", .array [.record [("id", .int 7), ("children", .array [])]])] ∧
      [Value.record [("id", .int 7), ("children", .array [])]].length ≤ 1 ∧
      Family.league.decode ⟨0, 7⟩ Family.team [4, 116, 50, 2, 4, 6] = .error (.underflow 1 0 6) ∧
      encode node ⟨0, 0⟩ "Node" tree = encode node ⟨64, 9⟩ "Node" tree := by
  obtain ⟨relaxed, sized, -, encoded, -⟩ := config_transparent node "Node" Family.league Family.team
  obtain ⟨-, -, byNode, -, -, -⟩ := relaxed ⟨0, 1⟩ ⟨64, 9⟩ (by decide)
  obtain ⟨-, -, -, -, -, byTeam⟩ := relaxed ⟨0, 2⟩ ⟨0, 7⟩ (by decide)
  have decoded : decode node ⟨0, 1⟩ "Node" [4, 110, 49, 216, 4, 2, 14, 0] =
      .ok [("id", .int 300), ("children", .array [.record [("id", .int 7), ("children", .array [])]])] := rfl
  have stopped : Family.league.decode ⟨0, 2⟩ Family.team [4, 116, 50, 2, 4, 6] = .error (.underflow 1 0 6) := rfl
  refine ⟨rfl, ?_, ?_, ?_, encoded _ _ tree⟩
  · rw [byNode _ (by rw [decoded]; rintro length limit position ⟨⟩), decoded]
  · exact sized ⟨0, 1⟩ _ _ _ decoded (.field (List.mem_cons_of_mem _ List.mem_cons_self) (.self _))
  · rw [byTeam _ (by rw [stopped]; rintro length limit position ⟨⟩), stopped]

end Wirepack
