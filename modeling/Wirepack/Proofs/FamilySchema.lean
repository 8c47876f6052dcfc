import Wirepack.Proofs.Composed
import Wirepack.Proofs.Encoding
import Wirepack.Proofs.FamilyRoundTrip
import Wirepack.Proofs.Validation

/-!
# A family and its schemas are one codec

The schema of a declared type lists the type and all it contains, as the family declares them. So
the value of a type has the same type under either, and both encoders write the same bytes. The two
readers count levels differently: one stops after a fixed number, the other gives each byte left its
share. Neither limit shows where no chain of types is longer than the first allows, since a schema
has no rings and an array takes the byte of its count.
-/

namespace Wirepack
set_option autoImplicit false

/-- No more than `levels` arrays and messages contain one another in a value of the type. -/
def FieldType.Layered (lookup : String → Option Definition) : Nat → FieldType → Prop
  | 0, .repeated _ | 0, .message _ => False
  | levels + 1, .repeated item => item.Layered lookup levels
  | levels + 1, .message name => ∀ d, lookup name = some d → ∀ f ∈ d.fields, f.type.Layered lookup levels
  | _, _ => True

theorem Value.Typed.within {lookup : String → Option Definition} {type : FieldType} {v : Value}
    (typed : v.Typed lookup type) {levels : Nat} (layered : type.Layered lookup levels) : v.Within levels := by
  induction typed generalizing levels with
  | array all ih =>
    obtain _ | below := levels
    · exact layered.elim
    · exact fun v member => ih v member layered
  | @record name d fields found named all ih =>
    obtain _ | below := levels
    · exact layered.elim
    · intro field member
      obtain ⟨f, paired⟩ := Value.Typed.exists_declared named member
      exact ih (f, field) paired (layered d found f (List.of_mem_zip paired).1)
  | _ => simp [Value.Within]

/-- The schema has every message that the type refers to. -/
def Schema.Knows (schema : Schema) (type : FieldType) : Prop :=
  ∀ name, type.Mentions name → ∃ d ∈ schema.messages, d.name = name

theorem Schema.knows_of_mem {schema : Schema} {d : Definition} (member : d ∈ schema.messages) :
    schema.Knows (.message d.name) := by
  intro name mentions
  cases mentions
  exact ⟨d, member, rfl⟩

/-- The two reads do the same wherever at most `bound` bytes are left. -/
def SameUpTo {α : Type} (bound : Nat) (read other : Read α) : Prop :=
  ∀ c : Cursor, c.remaining ≤ bound → read c = other c

namespace SameUpTo

variable {α β : Type} {bound : Nat}

theorem refl (read : Read α) : SameUpTo bound read read :=
  fun _ _ => rfl

theorem bind {least : Nat} {first other : Read α} {next nextOther : α → Read β} (takes : Takes least first)
    (same : SameUpTo bound first other)
    (goesOn : ∀ a left, left + least ≤ bound → SameUpTo left (next a) (nextOther a)) :
    SameUpTo bound (first >>= next) (other >>= nextOther) := by
  intro c few
  simp only [Bind.bind, EStateM.bind, ← same c few]
  cases run : first c with
  | error fault after => rfl
  | ok a after =>
    have fewer := takes.remaining_le run
    exact goesOn a after.remaining (by omega) after (Nat.le_refl _)

theorem mono {left : Nat} {read other : Read α} (same : SameUpTo bound read other) (le : left ≤ bound) :
    SameUpTo left read other :=
  fun c few => same c (Nat.le_trans few le)

theorem map {read other : Read α} (same : SameUpTo bound read other) (f : α → β) :
    SameUpTo bound (do return f (← read)) (do return f (← other)) := by
  intro c few
  simp only [Bind.bind, EStateM.bind, same c few]

theorem times {read other : Read α} (takes : Takes 0 read) (same : SameUpTo bound read other) (count : Nat) :
    SameUpTo bound (Cursor.times read count) (Cursor.times other count) := by
  induction count with
  | zero => exact refl _
  | succ count ih =>
    exact bind takes same fun first left le => (ih.mono le).map (first :: ·)

theorem fields {read other : FieldType → Read Value} {declared : List Field}
    (takes : ∀ type, Takes 0 (read type))
    (same : ∀ f ∈ declared, SameUpTo bound (read f.type) (other f.type)) :
    SameUpTo bound (readNamed read declared) (readNamed other declared) := by
  induction declared with
  | nil => exact refl _
  | cons f declared ih =>
    have others := ih fun g later => same g (List.mem_cons_of_mem f later)
    simp only [readNamed, List.mapM_cons]
    have first := (same f List.mem_cons_self).map (f.name, ·)
    exact bind ((takes f.type).map (f.name, ·)) first fun entry left le => (others.mono le).map (entry :: ·)

end SameUpTo

namespace Family

variable {family : Family}

/-- What holds of no definitions, and still holds when one of the family is added, holds of all that
are collected. -/
theorem collect_keeps {I : List Definition → Prop}
    (grow : ∀ known d, I known → family.get? d.name = some d → I (known ++ [d]))
    (levels : Nat) {known : List Definition} (start : I known) (name : String) :
    I (family.collect levels known name) := by
  induction levels generalizing known name with
  | zero => exact start
  | succ levels ih =>
    rw [collect]
    split
    · exact start
    · split
      · exact start
      · next d found =>
        have named : d.name = name := by simpa using List.find?_some found
        exact List.foldlRecOn _ _ (grow known d start (named ▸ found)) fun _ kept target _ => ih kept target

theorem declared_of_mem_definitions {name : String} {d : Definition} (member : d ∈ family.definitions name) :
    family.get? d.name = some d := by
  refine collect_keeps (I := fun known => ∀ d ∈ known, family.get? d.name = some d) ?_ _ (by simp) name d member
  intro known d kept found
  rw [List.forall_mem_append, List.forall_mem_singleton]
  exact ⟨kept, found⟩

theorem mem_definitions_self {d : Definition} (found : family.get? d.name = some d) :
    d ∈ family.definitions d.name := by
  have inside : 0 < family.declarations.length := List.length_pos_of_mem (List.mem_of_find?_eq_some found)
  obtain ⟨levels, size⟩ := Nat.exists_eq_succ_of_ne_zero (Nat.ne_of_gt inside)
  have opened : family.definitions d.name = d.references.foldl (family.collect levels) [d] := by
    simp [definitions, size, collect, found]
  rw [opened]
  refine List.foldlRecOn _ _ List.mem_cons_self fun known kept target _ => ?_
  exact collect_keeps (I := (d ∈ ·)) (fun _ _ kept _ => List.mem_append_left _ kept) levels kept target

/-- A valid schema whose messages are all as the family declares them. -/
structure Describes (schema : Schema) (family : Family) : Prop where
  built : schema.Built
  valid : schema.Valid
  declared : ∀ d ∈ schema.messages, family.get? d.name = some d

theorem schema_eq_ok {d : Definition} {schema : Schema} (described : family.schema d = .ok schema) :
    Describes schema family ∧ schema.messages = family.definitions d.name := by
  obtain ⟨built, added, described⟩ := Check.bind_eq_ok.1 described
  obtain ⟨⟨⟩, passed, described⟩ := Check.bind_eq_ok.1 described
  cases described
  have messages : schema.messages = family.definitions d.name := Schema.messages_of_addAll added
  have isBuilt := (Schema.Built.empty d.version).addAll added
  refine ⟨⟨isBuilt, isBuilt.valid_of_validate passed, fun e member => ?_⟩, messages⟩
  exact declared_of_mem_definitions (messages ▸ member)

namespace Describes

variable {schema : Schema}

/-- A message that the schema knows is the same in the family, and its fields are known too. -/
theorem message (describes : Describes schema family) {name : String} (known : schema.Knows (.message name)) :
    ∃ d, schema.get? name = some d ∧ family.get? name = some d ∧
      ∀ f ∈ d.fields, schema.Knows f.type ∧ ∀ target, f.type.Mentions target → schema.Refers name target := by
  obtain ⟨d, member, rfl⟩ := known name (.message name)
  have refers : ∀ f ∈ d.fields, ∀ target, f.type.Mentions target → schema.Refers d.name target :=
    fun f inside target mentions => ⟨d, member, rfl, f, inside, mentions⟩
  refine ⟨d, describes.built.get?_eq_some_iff.2 ⟨member, rfl⟩, describes.declared d member, fun f inside => ?_⟩
  exact ⟨fun target mentions => describes.valid.known d.name target (refers f inside target mentions),
    refers f inside⟩

theorem typed (describes : Describes schema family) {type : FieldType} {v : Value}
    (typed : v.Typed family.get? type) (known : schema.Knows type) : v.Typed schema.get? type := by
  induction typed with
  | bool v => exact .bool v
  | int v => exact .int v
  | long v => exact .long v
  | float v => exact .float v
  | double v => exact .double v
  | string text => exact .string text
  | array all ih => exact .array fun v member => ih v member fun name mentions => known name (.repeated mentions)
  | @record name d fields found named all ih =>
    obtain ⟨e, there, declared, below⟩ := describes.message known
    obtain rfl : d = e := Option.some.inj (found.symm.trans declared)
    exact .record there named fun pair member => ih pair member (below pair.1 (List.of_mem_zip member).1).1

/-- The two readers do the same on every type that is not too deep. The messages of `path` contain
the one that is read outside any array, so none of them is read again before the next array. -/
theorem sameUpTo (describes : Describes schema family) {limit levels more bound : Nat} {type : FieldType}
    (known : schema.Knows type) (layered : type.Layered family.get? levels) {path : List String}
    (below : ∀ outer ∈ path, ∀ target, type.Mentions target → Relation.TransGen schema.Refers outer target)
    (enough : bound * (family.declarations.length + 1) + (family.whole.offPath path).length < more) :
    SameUpTo bound (Message.readValue schema limit levels type) (family.readField limit more type) := by
  have bySchema : Follows schema.get? limit _ := Message.readValue_follows describes.valid.distinct
  have byFamily := family.readField_follows limit
  have forward := fun levels type => (Message.readValue_assembled schema limit levels type).composed.takes
  induction levels using Nat.strongRecOn generalizing type more bound path with
  | ind levels ih =>
    cases type with
    | int => rw [bySchema.int, byFamily.int]; exact .refl _
    | long => rw [bySchema.long, byFamily.long]; exact .refl _
    | float => rw [bySchema.float, byFamily.float]; exact .refl _
    | double => rw [bySchema.double, byFamily.double]; exact .refl _
    | bool => rw [bySchema.bool, byFamily.bool]; exact .refl _
    | string => rw [bySchema.string, byFamily.string]; exact .refl _
    | repeated item =>
      obtain _ | levels := levels
      · exact layered.elim
      · obtain ⟨more, rfl⟩ : ∃ n, more = n + 1 := ⟨more - 1, by omega⟩
        rw [bySchema.array, byFamily.array]
        refine .bind (Takes.count limit) (.refl _) fun count left le => ?_
        have known : schema.Knows item := fun name mentions => known name (.repeated mentions)
        have room : left * (family.declarations.length + 1) + (family.whole.offPath []).length < more := by
          have counted := Nat.mul_le_mul_right (family.declarations.length + 1) le
          have few := family.length_offPath_le []
          rw [Nat.succ_mul] at counted
          omega
        have elements := ih levels (Nat.lt_succ_self levels) known layered (by simp) room
        exact (elements.times (forward levels item) count).map Value.array
    | message name =>
      obtain _ | levels := levels
      · exact layered.elim
      · obtain ⟨more, rfl⟩ : ∃ n, more = n + 1 := ⟨more - 1, by omega⟩
        obtain ⟨d, there, declared, inner⟩ := describes.message known
        have fresh : name ∉ path := fun onPath =>
          describes.valid.acyclic name (below name onPath name (.message name))
        have fewer : (family.whole.offPath (name :: path)).length < (family.whole.offPath path).length :=
          Schema.offPath_cons_lt declared fresh
        rw [bySchema.message levels name d there, byFamily.message more name d declared]
        refine SameUpTo.map (.fields (forward levels) fun f inside => ?_) Value.record
        obtain ⟨known, refers⟩ := inner f inside
        refine ih levels (Nat.lt_succ_self levels) known (layered d declared f inside) ?_
          (show _ + (family.whole.offPath (name :: path)).length < more by omega)
        intro outer onPath target mentions
        rcases List.mem_cons.1 onPath with rfl | above
        · exact .single (refers target mentions)
        · exact .tail (below outer above name (.message name)) (refers target mentions)

theorem encode_eq (describes : Describes schema family) {d : Definition} (root : schema.get? d.name = some d)
    {fields : Record} (typed : (Value.record fields).Typed schema.get? (.message d.name))
    (within : (Value.record fields).Within (Schema.maxDepth + 1)) (writing config : Config) :
    Message.encode schema writing d.name fields = .ok (encode d config (.record fields)) := by
  have appends := Message.putValue_appends describes.valid.distinct typed within .top
  rw [Message.putMessage_eq root] at appends
  obtain ⟨after, run, bytes⟩ := appends ((Buffer.withCapacity writing.initialCapacity).putString d.version)
  have payload : after.bytes = encode d config (.record fields) := by
    rw [bytes, encode, Value.bytes_put]
    simp
  simp only [Message.encode, Schema.require, root, Message.putBody]
  exact Check.bind_eq_ok.2 ⟨d, rfl, by rw [run]; exact congrArg Except.ok payload⟩

theorem read_eq (describes : Describes schema family) {d : Definition} (root : schema.get? d.name = some d)
    (layered : (FieldType.message d.name).Layered family.get? (Schema.maxDepth + 1)) (limit : Nat) :
    (do return Value.record (← Message.read schema limit d.name)) = family.read limit d := by
  obtain ⟨member, -⟩ := describes.built.get?_eq_some_iff.1 root
  have bySchema : Follows schema.get? limit _ := Message.readValue_follows describes.valid.distinct
  have body : (do return Value.record (← readNamed (Message.readValue schema limit Schema.maxDepth) d.fields)) =
      family.readBody limit d := by
    funext c
    rw [← bySchema.message Schema.maxDepth d.name d root]
    have none : ∀ outer ∈ ([] : List String), ∀ target, (FieldType.message d.name).Mentions target →
        Relation.TransGen schema.Refers outer target := by simp
    refine describes.sameUpTo (Schema.knows_of_mem member) layered none ?_ c (Nat.le_refl _)
    have few := family.length_offPath_le []
    rw [levels, Nat.succ_mul]
    omega
  rw [Message.read_eq root (describes.valid.distinct d member), bind_assoc, body, read]

end Describes

/-- The schema of a declared type is the same codec as the type: it encodes every value to the same
bytes, and decodes every payload to the same value or the same fault. -/
theorem schema_codec_eq (distinct : (family.declarations.map Definition.name).Nodup) {d : Definition}
    (member : d ∈ family.declarations) {schema : Schema} (described : family.schema d = .ok schema)
    (shallow : ∀ f ∈ d.fields, f.type.Layered family.get? 64) :
    (∀ (fields : Record) (writing config : Config),
      (Value.record fields).Typed family.get? (.message d.name) →
        Message.encode schema writing d.name fields = .ok (encode d config (.record fields))) ∧
    ∀ (reading : Config) (data : Bytes),
      (Message.decode schema reading d.name data).map Value.record = family.decode reading d data := by
  have different : (family.whole.messages.map Definition.name).Nodup := distinct
  have declared : family.get? d.name = some d := (Schema.get?_eq_some_iff different).2 ⟨member, rfl⟩
  obtain ⟨describes, messages⟩ := schema_eq_ok described
  have inside : d ∈ schema.messages := messages ▸ mem_definitions_self declared
  have root : schema.get? d.name = some d := describes.built.get?_eq_some_iff.2 ⟨inside, rfl⟩
  have layered : (FieldType.message d.name).Layered family.get? (Schema.maxDepth + 1) := by
    intro e found
    obtain rfl : d = e := Option.some.inj (declared.symm.trans found)
    exact shallow
  constructor
  · intro fields writing config typed
    have bySchema := describes.typed typed (Schema.knows_of_mem inside)
    exact describes.encode_eq root bySchema (typed.within layered) writing config
  · intro reading data
    rw [Message.decode, decode, ← describes.read_eq root layered]
    simp only [Bind.bind, EStateM.bind]
    cases Message.read schema reading.maxCollection d.name (.start data) <;> rfl

def player : Definition :=
  ⟨"Player", "p", [⟨"name", .string⟩, ⟨"speed", .float⟩]⟩

def team : Definition :=
  ⟨"Team", "t2", [⟨"scores", .repeated (.repeated .int)⟩, ⟨"players", .repeated (.message "Player")⟩,
    ⟨"lead", .message "Player"⟩]⟩

def league : Family :=
  ⟨[player, ⟨"Referee", "r", []⟩, team]⟩

/-- A team whose scores are arrays in an array. -/
def champions : Record :=
  [("scores", .array [.array [.int 3, .int (-1)], .array []]), ("players", .array []),
    ("lead", .record [("name", .string "Ödön"), ("speed", .float 2.5)])]

theorem typed_champions : (Value.record champions).Typed league.get? (.message "Team") := by
  have lead : (Value.record [("name", .string "Ödön"), ("speed", .float 2.5)]).Typed league.get?
      (.message "Player") :=
    .record rfl rfl (by simpa [player] using ⟨.string "Ödön", .float 2.5⟩)
  have scores : (Value.array [.array [.int 3, .int (-1)], .array []]).Typed league.get?
      (.repeated (.repeated .int)) :=
    .array (by simpa using ⟨.array (by simpa using ⟨.int 3, .int (-1)⟩), .array (by simp)⟩)
  exact .record rfl rfl (by simpa [team, champions] using ⟨scores, .array (by simp), lead⟩)

theorem team_codec_eq : league.schema team = .ok ⟨"t2", [team, player]⟩ ∧
    Message.encode ⟨"t2", [team, player]⟩ ⟨0, 0⟩ "Team" champions =
      .ok (encode team ⟨9, 9⟩ (.record champions)) ∧
    (Message.decode ⟨"t2", [team, player]⟩ ⟨0, 1⟩ "Team" [4, 116, 50, 2, 4]).map Value.record =
      league.decode ⟨0, 1⟩ team [4, 116, 50, 2, 4] := by
  have described : league.schema team = .ok ⟨"t2", [team, player]⟩ := by cbv
  have shallow : ∀ f ∈ team.fields, f.type.Layered league.get? 64 := by
    have found : league.get? "Player" = some player := rfl
    simp [team, player, found, FieldType.Layered]
  have member : team ∈ league.declarations := by decide
  obtain ⟨encodes, decodes⟩ := schema_codec_eq (by decide) member described shallow
  exact ⟨described, encodes champions ⟨0, 0⟩ ⟨9, 9⟩ typed_champions, decodes ⟨0, 1⟩ [4, 116, 50, 2, 4]⟩

end Family

end Wirepack
