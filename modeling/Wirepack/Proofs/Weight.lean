import Wirepack.Proofs.DepthGuard
import Wirepack.Proofs.Limits
import Wirepack.Proofs.Splitting

/-!
# How many elements the bytes can give

An element of nearly every type takes a byte at least, so that the bytes after the count of an array bound
the number of its elements. A message without fields takes none, nor does a message of such messages only:
these are weightless. An array of them may be as long as the limit on collections allows, whatever is left
of the payload.
-/

namespace Wirepack
set_option autoImplicit false

/-- A value of the type takes no bytes: it is a message, and so are its fields, if it has any. -/
inductive FieldType.Weightless (lookup : String → Option Definition) : FieldType → Prop where
  | message {name : String} {d : Definition} (found : lookup name = some d)
      (all : ∀ f ∈ d.fields, Weightless lookup f.type) : Weightless lookup (.message name)

namespace Message

variable {schema : Schema} {limit levels : Nat} {data : Bytes} {v : Value}

/-- The bytes of an array: those of its count, and those of its elements one after another. -/
structure Listed (schema : Schema) (limit levels : Nat) (item : FieldType) (counted elements : Bytes)
    (items : List Value) : Prop where
  counts : Reads (Cursor.count limit) counted items.length
  reads : Reads (Cursor.times (readValue schema limit levels item) items.length) elements items

section Inversion

theorem readValue_local (schema : Schema) (limit levels : Nat) (type : FieldType) :
    Local (readValue schema limit levels type) :=
  (readValue_assembled schema limit levels type).local

theorem readEntry_local (schema : Schema) (limit levels : Nat) (f : Field) :
    Local (do return (f.name, ← readValue schema limit levels f.type)) :=
  (readValue_local schema limit levels f.type).bind fun v => .pure (f.name, v)

theorem times_local (schema : Schema) (limit levels : Nat) (item : FieldType) (count : Nat) :
    Local (Cursor.times (readValue schema limit levels item) count) := by
  rw [Cursor.times_eq_mapM]
  exact .mapM (fun _ => readValue_local schema limit levels item) _

/-- An array is read while a level is left, as a count and that many elements. -/
theorem listed_of_reads {item : FieldType} (reads : Reads (readValue schema limit levels (.repeated item)) data v) :
    ∃ below counted elements items, levels = below + 1 ∧ v = .array items ∧ data = counted ++ elements ∧
      Listed schema limit below item counted elements items := by
  obtain _ | below := levels
  · cases reads 0 []
  · rw [readValue] at reads
    obtain ⟨counted, elements, count, rfl, counts, rest⟩ := Reads.of_bind (.count limit)
      (fun count => (times_local schema limit below item count).bind fun items => .pure (Value.array items)) reads
    obtain ⟨items, all, rfl⟩ := Reads.of_map (times_local schema limit below item count) rest
    obtain rfl := Reads.length_of_times (readValue_local schema limit below item) all
    exact ⟨below, counted, elements, items, rfl, rfl, rfl, counts, all⟩

theorem named_of_reads (distinct : ∀ d ∈ schema.messages, (d.fields.map Field.name).Nodup) {name : String}
    {d : Definition} (found : schema.get? name = some d)
    (reads : Reads (readValue schema limit levels (.message name)) data v) :
    ∃ below record, levels = below + 1 ∧ v = .record record ∧
      Reads (readNamed (readValue schema limit below) d.fields) data record := by
  obtain _ | below := levels
  · have run := reads 0 []
    rw [readValue, Schema.require, found] at run
    cases run
  · rw [(readValue_follows distinct).message below name d found] at reads
    obtain ⟨record, fields, rfl⟩ := Reads.of_map (.mapM (readEntry_local schema limit below) _) reads
    exact ⟨below, record, rfl, rfl, fields⟩

end Inversion

section Weight

variable {type : FieldType}

theorem eq_nil_of_weightless (distinct : ∀ d ∈ schema.messages, (d.fields.map Field.name).Nodup)
    (weightless : type.Weightless schema.get?) (reads : Reads (readValue schema limit levels type) data v) :
    data = [] := by
  induction weightless generalizing levels data v with
  | @message name d found all ih =>
    obtain ⟨below, record, -, -, fields⟩ := named_of_reads distinct found reads
    refine Reads.eq_nil_of_mapM (readEntry_local schema limit below) ?_ fields
    intro f member data entry reads
    obtain ⟨v, here, -⟩ := Reads.of_map (readValue_local schema limit below f.type) reads
    exact ih f member here

/-- Every other type has a scalar or a count somewhere, and these take a byte. Induction on the levels left. -/
theorem ne_nil_of_not_weightless (distinct : ∀ d ∈ schema.messages, (d.fields.map Field.name).Nodup)
    (heavy : ¬ type.Weightless schema.get?) (reads : Reads (readValue schema limit levels type) data v) :
    data ≠ [] := by
  rintro rfl
  induction levels using Nat.strongRecOn generalizing type v with
  | ind levels ih =>
    cases type with
    | message name =>
      cases found : schema.get? name with
      | none =>
        have run := reads 0 []
        rw [readValue, Schema.require, found] at run
        cases run
      | some d =>
        obtain ⟨below, record, rfl, -, fields⟩ := named_of_reads distinct found reads
        obtain ⟨f, member, heavier⟩ : ∃ f ∈ d.fields, ¬ f.type.Weightless schema.get? := by
          by_contra all
          push Not at all
          exact heavy (.message found all)
        obtain ⟨before, after, whole⟩ := List.append_of_mem member
        rw [readNamed, whole] at fields
        obtain ⟨_, middle, _, _, _, _, nothing, -, -, -, entry, -⟩ :=
          Reads.of_mapM_append (readEntry_local schema limit below) fields
        obtain ⟨v, here, -⟩ := Reads.of_map (readValue_local schema limit below f.type) entry
        obtain rfl : middle = [] := (List.append_eq_nil_iff.1 (List.append_eq_nil_iff.1 nothing.symm).2).1
        exact ih below (Nat.lt_succ_self below) heavier here
    | repeated item =>
      obtain ⟨below, counted, elements, items, rfl, -, nothing, counts, -⟩ := listed_of_reads reads
      obtain rfl : counted = [] := (List.append_eq_nil_iff.1 nothing.symm).1
      cases counts 0 []
    | _ =>
      have run := reads 0 []
      rw [readValue] at run
      cases run

theorem Listed.length_le (distinct : ∀ d ∈ schema.messages, (d.fields.map Field.name).Nodup) {counted elements : Bytes}
    {items : List Value} (listed : Listed schema limit levels type counted elements items)
    (heavy : ¬ type.Weightless schema.get?) : items.length ≤ elements.length := by
  have all := listed.reads
  rw [Cursor.times_eq_mapM] at all
  simpa using Reads.length_le_of_mapM (fun _ => readValue_local schema limit levels type)
    (fun _ _ _ _ reads => ne_nil_of_not_weightless distinct heavy reads) all

theorem Listed.eq_nil (distinct : ∀ d ∈ schema.messages, (d.fields.map Field.name).Nodup) {counted elements : Bytes}
    {items : List Value} (listed : Listed schema limit levels type counted elements items)
    (weightless : type.Weightless schema.get?) : elements = [] := by
  have all := listed.reads
  rw [Cursor.times_eq_mapM] at all
  exact Reads.eq_nil_of_mapM (fun _ => readValue_local schema limit levels type)
    (fun _ _ _ _ reads => eq_nil_of_weightless distinct weightless reads) all

/-- Of weightless elements there may be any number, where there is one at all. -/
theorem Listed.exists_of_length (distinct : ∀ d ∈ schema.messages, (d.fields.map Field.name).Nodup)
    {counted elements : Bytes} {items : List Value} (listed : Listed schema limit levels type counted elements items)
    (weightless : type.Weightless schema.get?) (some : items ≠ []) {n : Nat} (allowed : n ≤ limit)
    (small : n < Written.lengthBound) :
    ∃ more, more.length = n ∧ Listed schema limit levels type (Written.length n) [] more := by
  obtain ⟨first, rest, rfl⟩ := List.exists_cons_of_ne_nil some
  have all := listed.reads
  rw [listed.eq_nil distinct weightless, Cursor.times_eq_mapM] at all
  obtain ⟨front, back, y, _, nothing, -, one, -⟩ :=
    Reads.of_mapM_cons (fun _ => readValue_local schema limit levels type) all
  obtain ⟨rfl, -⟩ := List.append_eq_nil_iff.1 nothing.symm
  refine ⟨List.replicate n y, List.length_replicate, ?_⟩
  constructor
  · rw [List.length_replicate]
    exact .count small allowed
  · rw [List.length_replicate]
    exact one.times_of_nil n

end Weight

end Message

/-- Where a read that succeeds leaves the cursor. -/
def Cursor.after? {α : Type} (read : Read α) (c : Cursor) : Option Cursor :=
  match read c with
  | .ok _ after => some after
  | .error _ _ => none

theorem Cursor.after?_of_reads {α : Type} {read : Read α} {front : Bytes} {a : α} (reads : Reads read front a)
    (position : Nat) (rest : Bytes) :
    after? read ⟨position, front ++ rest⟩ = some ⟨position + front.length, rest⟩ := by
  rw [after?, reads]

namespace Message

/-- From the start of a value of the type, on to the first element of the array that the steps lead to: past all
that stands before the array, and past its count. -/
def elementsAt (schema : Schema) (limit : Nat) : Nat → FieldType → List Step → Cursor → Option Cursor
  | _ + 1, .repeated _, [], c => Cursor.after? (Cursor.count limit) c
  | levels + 1, .repeated item, .index i :: steps, c => do
    let c ← Cursor.after? (Cursor.count limit) c
    let c ← Cursor.after? (Cursor.times (readValue schema limit levels item) i) c
    elementsAt schema limit levels item steps c
  | levels + 1, .message name, .field field :: steps, c => do
    let d ← schema.get? name
    let f ← d.field? field
    let c ← Cursor.after? (readNamed (readValue schema limit levels) (d.fields.takeWhile (·.name != field))) c
    elementsAt schema limit levels f.type steps c
  | _, _, _, _ => none

/-- How many bytes of a payload remain after the count of the array that the steps lead to. -/
def bytesLeft (schema : Schema) (config : Config) (type : String) (data : Bytes) (steps : List Step) : Option Nat := do
  let d ← schema.get? type
  let c ← Cursor.after? (Cursor.version d.version) (.start data)
  let c ← elementsAt schema config.maxCollection (Schema.maxDepth + 1) (.message type) steps c
  return c.remaining

section Frames

variable {schema : Schema} {limit levels below : Nat} {steps : List Step} {item inner : FieldType}
  {front back start stop : Bytes}

/-- Between `front` and `back` there is room for the array that the steps lead to, whatever it holds. -/
structure Frame (schema : Schema) (limit levels : Nat) (type : FieldType) (steps : List Step) (below : Nat)
    (item : FieldType) (front back : Bytes) : Prop where
  opens : ∀ {counted count}, Reads (Cursor.count limit) counted count → ∀ position rest,
    elementsAt schema limit levels type steps ⟨position, front ++ (counted ++ rest)⟩ =
      some ⟨position + front.length + counted.length, rest⟩
  holds : ∀ {counted elements items}, Listed schema limit below item counted elements items →
    ∃ v, Reads (readValue schema limit levels type) (front ++ (counted ++ (elements ++ back))) v ∧
      v.Leads schema.get? type steps (.repeated item) (.array items)

theorem Listed.reads_array {counted elements : Bytes} {items : List Value}
    (listed : Listed schema limit levels item counted elements items) :
    Reads (readValue schema limit (levels + 1) (.repeated item)) (counted ++ elements) (.array items) := by
  rw [readValue]
  exact listed.counts.bind (listed.reads.map Value.array)

theorem Frame.here (schema : Schema) (limit levels : Nat) (item : FieldType) :
    Frame schema limit (levels + 1) (.repeated item) [] levels item [] [] where
  opens counts position rest := by
    rw [elementsAt]
    exact Cursor.after?_of_reads counts position rest
  holds {counted elements items} listed :=
    ⟨.array items, by simpa using listed.reads_array, .here _ _⟩

/-- The elements before and after one widen the frame around an array in it. -/
theorem Frame.index {counted : Bytes} {first last : List Value} {v : Value}
    (counts : Reads (Cursor.count limit) counted (first ++ v :: last).length)
    (ahead : Reads (Cursor.times (readValue schema limit levels item) first.length) front first)
    (behind : Reads (Cursor.times (readValue schema limit levels item) last.length) back last)
    (frame : Frame schema limit levels item steps below inner start stop) :
    Frame schema limit (levels + 1) (.repeated item) (.index first.length :: steps) below inner
      (counted ++ (front ++ start)) (stop ++ back) where
  opens opening position rest := by
    have past := Cursor.after?_of_reads counts position
    have further := Cursor.after?_of_reads ahead (position + counted.length)
    simp [elementsAt, past, further, frame.opens opening, Nat.add_assoc]
  holds listed := by
    obtain ⟨v, reads, leads⟩ := frame.holds listed
    have whole : Listed schema limit levels item counted _ (first ++ v :: last) :=
      ⟨by simpa using counts, Reads.times_append ahead reads behind⟩
    exact ⟨.array (first ++ v :: last), by simpa using whole.reads_array, .index (by simp) leads⟩

theorem field_of_append {d : Definition} {f : Field} {before after : List Field} (whole : d.fields = before ++ f :: after)
    (different : (d.fields.map Field.name).Nodup) :
    d.field? f.name = some f ∧ d.fields.takeWhile (·.name != f.name) = before := by
  have fresh : ∀ g ∈ before, g.name ≠ f.name := by
    intro g member same
    rw [whole, List.map_append, List.map_cons, List.nodup_append] at different
    exact different.2.2 g.name (List.mem_map_of_mem member) f.name (by simp) same
  constructor
  · rw [Definition.field?, whole, List.find?_append, List.find?_eq_none.2 (by simpa using fresh)]
    simp
  · rw [whole, List.takeWhile_append_of_pos (by simpa using fresh)]
    simp

theorem get?_of_readNamed {read : FieldType → Read Value} {d : Definition} {first last : Record} {name : String}
    {v : Value} {data : Bytes} (different : (d.fields.map Field.name).Nodup)
    (reads : Reads (readNamed read d.fields) data (first ++ (name, v) :: last)) :
    Keyed.get? (first ++ (name, v) :: last) name = some v := by
  have names := names_of_readNamed (reads 0 [])
  have member : (name, v) ∈ first ++ (name, v) :: last := by simp
  exact Keyed.get?_of_mem (names ▸ different) member

/-- The fields before and after one widen the frame around an array in it. -/
theorem Frame.field (distinct : ∀ d ∈ schema.messages, (d.fields.map Field.name).Nodup) {name : String}
    {d : Definition} {f : Field} {before after : List Field} {first last : Record} (found : schema.get? name = some d)
    (whole : d.fields = before ++ f :: after)
    (ahead : Reads (readNamed (readValue schema limit levels) before) front first)
    (behind : Reads (readNamed (readValue schema limit levels) after) back last)
    (frame : Frame schema limit levels f.type steps below inner start stop) :
    Frame schema limit (levels + 1) (.message name) (.field f.name :: steps) below inner
      (front ++ start) (stop ++ back) where
  opens opening position rest := by
    have different := distinct d (List.mem_of_find?_eq_some found)
    obtain ⟨there, preceding⟩ := field_of_append whole different
    have past := Cursor.after?_of_reads ahead position
    simp [elementsAt, found, there, preceding, past, frame.opens opening, Nat.add_assoc]
  holds listed := by
    have different := distinct d (List.mem_of_find?_eq_some found)
    obtain ⟨v, reads, leads⟩ := frame.holds listed
    have all : Reads (readNamed (readValue schema limit levels) (before ++ f :: after))
        (front ++ ((start ++ (_ ++ (_ ++ stop))) ++ back)) _ :=
      Reads.mapM_append ahead (reads.map (f.name, ·)) behind
    rw [← whole] at all
    have present := get?_of_readNamed different all
    refine ⟨.record (first ++ (f.name, v) :: last), ?_, .field found (by simp [whole]) present leads⟩
    rw [(readValue_follows distinct).message levels name d found]
    simpa using all.map Value.record

/-- What is read for a value has a frame around each of its arrays. Induction on the steps to it. -/
theorem exists_frame (distinct : ∀ d ∈ schema.messages, (d.fields.map Field.name).Nodup) {type : FieldType}
    {v part : Value} {items : List Value} {data : Bytes} (leads : v.Leads schema.get? type steps inner part)
    (array : inner = .repeated item) (same : part = .array items)
    (reads : Reads (readValue schema limit levels type) data v) :
    ∃ below front counted elements back, data = front ++ (counted ++ (elements ++ back)) ∧
      Listed schema limit below item counted elements items ∧
      Frame schema limit levels type steps below item front back := by
  induction leads generalizing levels data with
  | here type v =>
    -- the array itself: nothing stands before its count or after its elements
    subst array same
    obtain ⟨below, counted, elements, items, rfl, whole, rfl, listed⟩ := listed_of_reads reads
    cases whole
    exact ⟨below, [], counted, elements, [], by simp, listed, .here schema limit below item⟩
  | index there leads ih =>
    obtain ⟨outer, counted, elements, items, rfl, whole, rfl, listed⟩ := listed_of_reads reads
    cases whole
    obtain ⟨front, middle, back, first, last, rfl, rfl, rfl, ahead, here, behind⟩ :=
      Reads.of_times (readValue_local schema limit outer _) listed.reads there
    obtain ⟨below, start, inside, parts, stop, rfl, deeper, frame⟩ := ih array same here
    exact ⟨below, _, inside, parts, _, by simp, deeper, .index listed.counts ahead behind frame⟩
  | @field name d f record inner v part steps found member present leads ih =>
    obtain ⟨outer, record, rfl, whole, fields⟩ := named_of_reads distinct found reads
    cases whole
    obtain ⟨before, after, split⟩ := List.append_of_mem member
    have apart := fields
    rw [readNamed, split] at apart
    obtain ⟨front, middle, back, first, entry, last, rfl, rfl, -, ahead, here, behind⟩ :=
      Reads.of_mapM_append (readEntry_local schema limit outer) apart
    obtain ⟨other, readsHere, rfl⟩ := Reads.of_map (readValue_local schema limit outer f.type) here
    have there := get?_of_readNamed (distinct d (List.mem_of_find?_eq_some found)) fields
    cases there.symm.trans present
    obtain ⟨below, start, inside, parts, stop, rfl, deeper, frame⟩ := ih array same readsHere
    exact ⟨below, front ++ start, inside, parts, stop ++ back, by simp, deeper,
      .field distinct found split ahead behind frame⟩

end Frames

section Payloads

variable {schema : Schema} {config : Config} {type : String} {d : Definition} {record : Record} {tag body : Bytes}

theorem version_local (expected : String) : Local (Cursor.version expected) := by
  have assembled : Assembled 0 (fun _ => True) (Cursor.version expected) := .version (fun _ _ => trivial) expected
  exact assembled.local

/-- A payload that is decoded is a tag, a body that is read for the message, and whatever follows. -/
theorem exists_body_of_decode (distinct : ∀ d ∈ schema.messages, (d.fields.map Field.name).Nodup) {data : Bytes}
    (decoded : decode schema config type data = .ok record) :
    ∃ d tag body suffix, schema.get? type = some d ∧ data = tag ++ (body ++ suffix) ∧
      Reads (Cursor.version d.version) tag () ∧
      Reads (readValue schema config.maxCollection (Schema.maxDepth + 1) (.message type)) body (.record record) := by
  rw [decode] at decoded
  split at decoded
  · next after run =>
    cases decoded
    cases found : schema.get? type with
    | none =>
      rw [read, Schema.require, found] at run
      cases run
    | some d =>
      rw [read_eq found (distinct d (List.mem_of_find?_eq_some found))] at run
      obtain ⟨⟨⟩, middle, tagged, fields⟩ := Run.bind_eq_ok.1 run
      obtain ⟨tag, starts, -, readsTag⟩ := version_local d.version _ _ _ tagged
      obtain ⟨body, goesOn, -, readsBody⟩ :=
        Local.mapM (readEntry_local schema config.maxCollection Schema.maxDepth) d.fields _ _ _ fields
      refine ⟨d, tag, body, after.rest, rfl, goesOn ▸ starts, readsTag, ?_⟩
      rw [(readValue_follows distinct).message _ type d found]
      exact readsBody.map Value.record
  · cases decoded

theorem decode_of_body (distinct : ∀ d ∈ schema.messages, (d.fields.map Field.name).Nodup)
    (found : schema.get? type = some d) (readsTag : Reads (Cursor.version d.version) tag ()) {v : Value}
    (readsBody : Reads (readValue schema config.maxCollection (Schema.maxDepth + 1) (.message type)) body v)
    (suffix : Bytes) :
    ∃ record, v = .record record ∧ decode schema config type (tag ++ (body ++ suffix)) = .ok record := by
  obtain ⟨below, record, same, rfl, fields⟩ := named_of_reads distinct found readsBody
  cases same
  have whole : Reads (read schema config.maxCollection type) (tag ++ body) record := by
    rw [read_eq found (distinct d (List.mem_of_find?_eq_some found))]
    exact readsTag.bind fields
  refine ⟨record, rfl, ?_⟩
  rw [decode, Cursor.start, ← List.append_assoc, whole]

theorem bytesLeft_of_frame {steps : List Step} {below : Nat} {item : FieldType} {front back counted : Bytes} {count : Nat}
    (found : schema.get? type = some d) (readsTag : Reads (Cursor.version d.version) tag ())
    (frame : Frame schema config.maxCollection (Schema.maxDepth + 1) (.message type) steps below item front back)
    (counts : Reads (Cursor.count config.maxCollection) counted count) (rest : Bytes) :
    bytesLeft schema config type (tag ++ (front ++ (counted ++ rest))) steps = some rest.length := by
  have past := Cursor.after?_of_reads readsTag 0
  simp [bytesLeft, found, Cursor.start, past, frame.opens counts, Cursor.remaining]

end Payloads

end Message

/-- The steps to an array that a typed value contains. -/
theorem Value.Typed.exists_leads {schema : Schema} (distinct : ∀ d ∈ schema.messages, (d.fields.map Field.name).Nodup)
    {type : FieldType} {v part : Value} {items : List Value} (typed : v.Typed schema.get? type)
    (contains : v.Contains part) (array : part = .array items) :
    ∃ steps item, v.Leads schema.get? type steps (.repeated item) (.array items) := by
  induction contains generalizing type with
  | self v =>
    subst array
    cases typed with
    | array all => exact ⟨[], _, .here _ _⟩
  | item member inside ih =>
    cases typed with
    | array all =>
      obtain ⟨steps, item, leads⟩ := ih (all _ member) array
      obtain ⟨i, there⟩ := List.getElem?_of_mem member
      exact ⟨.index i :: steps, item, .index there leads⟩
  | field member inside ih =>
    cases typed with
    | record found named all =>
      obtain ⟨f, paired⟩ := Value.Typed.exists_declared named member
      obtain ⟨steps, item, leads⟩ := ih (all _ paired) array
      have present := Value.Typed.get?_of_mem_zip named (distinct _ (List.mem_of_find?_eq_some found)) paired
      exact ⟨.field f.name :: steps, item, .field found (List.of_mem_zip paired).1 present leads⟩

namespace Message

/-- Every array of a decoded message stands somewhere among its declared types. If its elements have weight,
they are no more than the bytes that remained after its count. If they have none, and there is one, any other
number of them could stand there and leave as many bytes, up to the limit and to what a count can say. -/
theorem elements_backed {schema : Schema} (passed : schema.validate = .ok ()) {config : Config} {type : String}
    {data : Bytes} {record : Record} (decoded : decode schema config type data = .ok record) :
    (∀ items, (Value.record record).Contains (.array items) →
      ∃ steps item, (Value.record record).Leads schema.get? (.message type) steps (.repeated item) (.array items)) ∧
    ∀ steps item items,
      (Value.record record).Leads schema.get? (.message type) steps (.repeated item) (.array items) →
        ∃ left, bytesLeft schema config type data steps = some left ∧
          (¬ item.Weightless schema.get? → items.length ≤ left) ∧
          (item.Weightless schema.get? → items ≠ [] → ∀ n ≤ config.maxCollection, n < 2 ^ 63 →
            ∃ other again more, decode schema config type other = .ok again ∧
              (Value.record again).Leads schema.get? (.message type) steps (.repeated item) (.array more) ∧
              more.length = n ∧ bytesLeft schema config type other steps = some left) := by
  obtain ⟨-, fields, -⟩ := Schema.validate_eq_ok.1 passed
  have distinct : ∀ d ∈ schema.messages, (d.fields.map Field.name).Nodup := fun d member => (fields d member).distinct
  obtain ⟨d, tag, body, suffix, found, rfl, readsTag, readsBody⟩ := exists_body_of_decode distinct decoded
  constructor
  · intro items contains
    obtain ⟨_, -, accepted⟩ := readValue_yields distinct _ _ _ _ _ _ (readsBody 0 [])
    exact accepted.typed.exists_leads distinct contains rfl
  · intro steps item items leads
    obtain ⟨below, front, counted, elements, back, rfl, listed, frame⟩ := exists_frame distinct leads rfl rfl readsBody
    have left := bytesLeft_of_frame found readsTag frame listed.counts (elements ++ (back ++ suffix))
    refine ⟨(elements ++ (back ++ suffix)).length, by simpa using left, fun heavy => ?_,
      fun weightless some n allowed small => ?_⟩
    · have fewer := listed.length_le distinct heavy
      rw [List.length_append]
      omega
    · obtain rfl := listed.eq_nil distinct weightless
      obtain ⟨more, size, listedToo⟩ := listed.exists_of_length distinct weightless some allowed small
      obtain ⟨v, reads, leadsToo⟩ := frame.holds listedToo
      obtain ⟨again, rfl, decodes⟩ := decode_of_body distinct found readsTag reads suffix
      have leftToo := bytesLeft_of_frame found readsTag frame listedToo.counts (back ++ suffix)
      exact ⟨_, again, more, decodes, leadsToo, size, by simpa using leftToo⟩

/-- Numbers, and marks that say nothing. -/
def tally : Schema :=
  ⟨"1", [⟨"Tally", "1", [⟨"numbers", .repeated .int⟩, ⟨"marks", .repeated (.message "Mark")⟩]⟩, ⟨"Mark", "1", []⟩]⟩

/-- Two numbers and three marks. -/
def tallied : Record :=
  [("numbers", .array [.int 1, .int 2]), ("marks", .array [.record [], .record [], .record []])]

/-- The numbers are within the bytes after their count; where three marks stood, a thousand may stand. -/
theorem elements_backed_tally :
    tally.validate = .ok () ∧ decode tally ⟨0, 1000⟩ "Tally" [2, 49, 4, 2, 4, 6] = .ok tallied ∧
      (∃ left, bytesLeft tally ⟨0, 1000⟩ "Tally" [2, 49, 4, 2, 4, 6] [.field "numbers"] = some left ∧ 2 ≤ left) ∧
      ∃ other again more, decode tally ⟨0, 1000⟩ "Tally" other = .ok again ∧
        (Value.record again).Leads tally.get? (.message "Tally") [.field "marks"] (.repeated (.message "Mark"))
          (.array more) ∧
        more.length = 1000 ∧ bytesLeft tally ⟨0, 1000⟩ "Tally" other [.field "marks"] = some 0 := by
  have passed : tally.validate = .ok () := by cbv
  have decoded : decode tally ⟨0, 1000⟩ "Tally" [2, 49, 4, 2, 4, 6] = .ok tallied := by rfl
  obtain ⟨-, backed⟩ := elements_backed passed decoded
  obtain ⟨left, there, bound, -⟩ := backed [.field "numbers"] .int [.int 1, .int 2]
    (.field (f := ⟨"numbers", .repeated .int⟩) rfl (by simp) rfl (.here _ _))
  obtain ⟨rest, behind, -, grows⟩ := backed [.field "marks"] (.message "Mark") [.record [], .record [], .record []]
    (.field (f := ⟨"marks", .repeated (.message "Mark")⟩) rfl (by simp) rfl (.here _ _))
  have nothing : bytesLeft tally ⟨0, 1000⟩ "Tally" [2, 49, 4, 2, 4, 6] [.field "marks"] = some 0 := by rfl
  cases nothing.symm.trans behind
  have weightless : (FieldType.message "Mark").Weightless tally.get? := .message rfl (by simp)
  have heavy : ¬ FieldType.int.Weightless tally.get? := by rintro ⟨⟩
  exact ⟨passed, decoded, ⟨left, there, bound heavy⟩, grows weightless (by simp) 1000 (by decide) (by decide)⟩

/-- Three marks are decoded, and no byte remained after their count. -/
theorem marks_outnumber_bytes :
    tally.validate = .ok () ∧
      decode tally ⟨1024, 10000000⟩ "Tally" [2, 49, 0, 6] =
        .ok [("numbers", .array []), ("marks", .array [.record [], .record [], .record []])] ∧
      bytesLeft tally ⟨1024, 10000000⟩ "Tally" [2, 49, 0, 6] [.field "marks"] = some 0 := by
  exact ⟨by cbv, by rfl, by rfl⟩

end Message

end Wirepack
