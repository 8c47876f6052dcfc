import Wirepack.Proofs.RoundTrip

/-!
# Appending messages to one buffer

Bodies carry no marks of where they start or end, and a call that fails may have written any part
of one before it does. Giving the written part up again is enough because no write reaches below
the end of the buffer: whatever the buffer holds, a write appends the same bytes or fails in the
same way. So the bodies of the calls that succeed stand one after another, and are read back in turn.
-/

namespace Wirepack
set_option autoImplicit false

namespace Buffer

/-- From `b` to `after`, `data` was appended to the bytes that were there, and no room was lost. -/
structure Grows (b : Buffer) (data : Bytes) (after : Buffer) : Prop where
  bytes : after.bytes = b.bytes ++ data
  room : b.capacity ≤ after.capacity

theorem Grows.refl (b : Buffer) : b.Grows [] b :=
  ⟨by simp, Nat.le_refl _⟩

theorem Grows.trans {b middle after : Buffer} {data more : Bytes} (first : b.Grows data middle)
    (second : middle.Grows more after) : b.Grows (data ++ more) after where
  bytes := by rw [second.bytes, first.bytes, List.append_assoc]
  room := Nat.le_trans first.room second.room

/-- Cutting a buffer back to its former length restores the bytes and keeps the room. -/
theorem Grows.truncate {b after : Buffer} {data : Bytes} (grows : b.Grows data after) :
    b.Grows [] (after.truncate b.length) where
  bytes := by
    rw [bytes_truncate, grows.bytes, List.take_left' (length_bytes b), List.append_nil]
  room := grows.room

theorem grows_reserve (b : Buffer) (count : Nat) : b.Grows [] (b.reserve count) where
  bytes := by simp
  room := by
    unfold reserve
    split
    · exact Nat.le_refl _
    · simp only [capacity, size_enlarge]
      omega

theorem grows_put (b : Buffer) (data : Bytes) : b.Grows data (b.put data) where
  bytes := bytes_put b data
  room := by
    have enough := (b.grows_reserve data.length).room
    simpa [put, capacity] using enough

theorem grows_putVarint (b : Buffer) (value : UInt64) : b.Grows (Varint.encode value) (b.putVarint value) where
  bytes := bytes_putVarint b value
  room := by
    unfold putVarint
    split
    · exact (b.grows_put _).room
    · split
      · exact (b.grows_put _).room
      · exact Nat.le_trans (b.grows_reserve _).room (grows_put _ _).room

theorem grows_putString (b : Buffer) (text : String) : b.Grows (Written.string text) (b.putString text) :=
  (b.grows_putVarint _).trans (grows_put _ _)

end Buffer

/-- The write does the same to every buffer: it appends the same bytes, or it fails with the same
fault, having appended something or nothing. -/
inductive AppendOnly (write : Write Unit) : Prop where
  | succeeds (data : Bytes) (all : ∀ b, ∃ after, write b = .ok () after ∧ b.Grows data after)
  | fails (fault : Fault) (all : ∀ b, ∃ after part, write b = .error fault after ∧ b.Grows part after)

namespace AppendOnly

theorem nothing : AppendOnly (pure ()) :=
  .succeeds [] fun b => ⟨b, rfl, .refl b⟩

theorem throw (fault : Fault) : AppendOnly (throw fault) :=
  .fails fault fun b => ⟨b, [], rfl, .refl b⟩

theorem modify {f : Buffer → Buffer} {data : Bytes} (grows : ∀ b : Buffer, b.Grows data (f b)) : AppendOnly (modify f) :=
  .succeeds data fun b => ⟨f b, rfl, grows b⟩

theorem bind {first second : Write Unit} (start : AppendOnly first) (rest : AppendOnly second) :
    AppendOnly (first >>= fun _ => second) := by
  cases start with
  | fails fault all =>
    refine .fails fault fun b => ?_
    obtain ⟨after, part, run, grows⟩ := all b
    exact ⟨after, part, Run.bind_eq_error.2 (.inl run), grows⟩
  | succeeds data all =>
    cases rest with
    | succeeds more others =>
      refine .succeeds (data ++ more) fun b => ?_
      obtain ⟨middle, run, grows⟩ := all b
      obtain ⟨after, goesOn, further⟩ := others middle
      exact ⟨after, Run.bind_eq_ok.2 ⟨(), middle, run, goesOn⟩, grows.trans further⟩
    | fails fault others =>
      refine .fails fault fun b => ?_
      obtain ⟨middle, run, grows⟩ := all b
      obtain ⟨after, part, stops, further⟩ := others middle
      exact ⟨after, data ++ part, Run.bind_eq_error.2 (.inr ⟨(), middle, run, stops⟩), grows.trans further⟩

theorem forM {α : Type} {write : α → Write Unit} {xs : List α} (each : ∀ x ∈ xs, AppendOnly (write x)) :
    AppendOnly (xs.forM write) := by
  induction xs with
  | nil => exact nothing
  | cons x xs ih =>
    exact (each x List.mem_cons_self).bind (ih fun y later => each y (List.mem_cons_of_mem x later))

theorem accepted {α : Type} {put : Buffer → α → Buffer} {data : α → Bytes}
    (grows : ∀ (b : Buffer) (a : α), b.Grows (data a) (put b a)) (path : Path) (type : FieldType) (v : Value)
    (accepted : Option α) : AppendOnly (Message.putAccepted put path type v accepted) := by
  cases accepted with
  | none => exact throw _
  | some a => exact modify fun b => grows b a

end AppendOnly

namespace Message

theorem putFields_appendOnly {put : Path → FieldType → Value → Write Unit}
    (each : ∀ path type v, AppendOnly (put path type v)) (d : Definition) (path : Path) (record : Record) :
    AppendOnly (putFields put d path record) := by
  refine .forM fun f _ => ?_
  split
  · exact .throw _
  · exact each _ _ _

/-- No value of any type makes a write reach below the end. Induction on the levels left. -/
theorem putValue_appendOnly (schema : Schema) (levels : Nat) (path : Path) (type : FieldType) (v : Value) :
    AppendOnly (putValue schema levels path type v) := by
  induction levels using Nat.strongRecOn generalizing path type v with
  | ind levels ih =>
    cases type with
    | int => rw [putValue]; exact .accepted (fun b a => b.grows_putVarint _) _ _ _ _
    | long => rw [putValue]; exact .accepted (fun b a => b.grows_putVarint _) _ _ _ _
    | float => rw [putValue]; exact .accepted (fun b a => b.grows_putVarint _) _ _ _ _
    | double => rw [putValue]; exact .accepted (fun b a => b.grows_putVarint _) _ _ _ _
    | bool => rw [putValue]; exact .accepted (fun b a => b.grows_put _) _ _ _ _
    | string => rw [putValue]; exact .accepted (fun b a => b.grows_putString a) _ _ _ _
    | repeated item =>
      obtain _ | below := levels
      · exact .throw _
      · rw [putValue]
        split
        · exact .throw _
        · next items _ =>
          have counted : AppendOnly (modify (·.putLength items.length)) := .modify fun b => b.grows_putVarint _
          exact counted.bind (.forM fun element _ => ih below (Nat.lt_succ_self below) _ _ _)
    | message name =>
      rw [putValue]
      split
      · exact .throw _
      · next record _ =>
        unfold Schema.require
        split
        · obtain _ | below := levels
          · exact .throw _
          · exact putFields_appendOnly (ih below (Nat.lt_succ_self below)) _ _ _
        · exact .throw _

theorem putBody_appendOnly (schema : Schema) (d : Definition) (record : Record) :
    AppendOnly (putBody schema d record) :=
  putFields_appendOnly (putValue_appendOnly schema Schema.maxDepth) d .top record

theorem append_of_unknown {schema : Schema} {type : String} (unknown : schema.get? type = none) (record : Record)
    (b : Buffer) : append schema type record b = .error (.typeNotFound type) (b.truncate b.length) := by
  simp only [append, Schema.require, unknown]
  rfl

theorem encode_of_unknown {schema : Schema} {type : String} (unknown : schema.get? type = none) (config : Config)
    (record : Record) : encode schema config type record = .error (.typeNotFound type) := by
  rw [encode, Schema.require, unknown]
  rfl

section Known

variable {schema : Schema} {type : String} {d : Definition}

theorem append_of_known (found : schema.get? type = some d) (record : Record) (b : Buffer) :
    append schema type record b = match putBody schema d record b with
      | .ok () after => .ok () after
      | .error fault after => .error fault (after.truncate b.length) := by
  simp only [append, Schema.require, found]
  rfl

theorem encode_of_known (found : schema.get? type = some d) (record : Record) (config : Config) :
    encode schema config type record =
      match putBody schema d record ((Buffer.withCapacity config.initialCapacity).putString d.version) with
      | .ok () after => .ok after.bytes
      | .error fault _ => .error fault := by
  simp only [encode, Schema.require, found]
  rfl

theorem readBody_of_known (found : schema.get? type = some d) (distinct : (d.fields.map Field.name).Nodup)
    (limit : Nat) :
    readBody schema limit type = readNamed (readValue schema limit Schema.maxDepth) d.fields := by
  simp [readBody, Schema.require, found, MonadExcept.ofExcept, readFields_eq distinct]

end Known

/-- A message of some type is appended to every buffer, and then encoding it alone gives the same
bytes after the tag; or it is refused by every buffer, which keeps its bytes and its room. -/
theorem append_cases (schema : Schema) (type : String) (record : Record) :
    (∃ d data, schema.get? type = some d ∧
      (∀ b, ∃ after, append schema type record b = .ok () after ∧ b.Grows data after) ∧
      ∀ config, encode schema config type record = .ok (Written.string d.version ++ data)) ∨
    ∃ fault, (∀ b, ∃ after, append schema type record b = .error fault after ∧ b.Grows [] after) ∧
      ∀ config, encode schema config type record = .error fault := by
  cases found : schema.get? type with
  | none =>
    refine .inr ⟨.typeNotFound type, fun b => ?_, fun config => ?_⟩
    · exact ⟨_, append_of_unknown found record b, (Buffer.Grows.refl b).truncate⟩
    · simp only [encode, Schema.require, found]
      rfl
  | some d =>
    cases putBody_appendOnly schema d record with
    | succeeds data all =>
      refine .inl ⟨d, data, rfl, fun b => ?_, fun config => ?_⟩
      · obtain ⟨after, run, grows⟩ := all b
        exact ⟨after, by rw [append_of_known found, run], grows⟩
      · obtain ⟨after, run, grows⟩ := all ((Buffer.withCapacity config.initialCapacity).putString d.version)
        rw [encode_of_known found, run]
        simp [grows.bytes]
    | fails fault all =>
      refine .inr ⟨fault, fun b => ?_, fun config => ?_⟩
      · obtain ⟨after, part, run, grows⟩ := all b
        exact ⟨after.truncate b.length, by rw [append_of_known found, run], grows.truncate⟩
      · obtain ⟨after, part, run, -⟩ := all ((Buffer.withCapacity config.initialCapacity).putString d.version)
        rw [encode_of_known found, run]

theorem reads_of_append {schema : Schema} (distinct : ∀ d ∈ schema.messages, (d.fields.map Field.name).Nodup)
    {type : String} {record : Record} {b after : Buffer} {data : Bytes} {limit : Nat}
    (run : append schema type record b = .ok () after) (grows : b.Grows data after)
    (fits : ∀ field ∈ declaredRecord schema type record, field.2.Fits limit) :
    Reads (readBody schema limit type) data (normal schema type record) := by
  cases found : schema.get? type with
  | none =>
    rw [append_of_unknown found] at run
    cases run
  | some d =>
    rw [append_of_known found] at run
    split at run
    · next written =>
      cases run
      obtain ⟨named, typed, within, bytes⟩ := putFields_wrote putValue_wrote found written
      have same : data = (declaredRecord schema type record).flatMap fun field => field.2.wire :=
        List.append_cancel_left (grows.bytes.symm.trans bytes)
      rw [readBody_of_known found (distinct d (List.mem_of_find?_eq_some found)), same]
      refine Reads.fields named fun pair member => ?_
      have inside := (List.of_mem_zip member).2
      exact (readValue_follows distinct).reads (typed pair member) (fits pair.2 inside) (within pair.2 inside)
    · cases run

/-- Appends messages one after another to one buffer. A message that is refused is passed over.
The result lists those that were appended, and the buffer after all of them. -/
def appendEach (schema : Schema) : List (String × Record) → Buffer → List (String × Record) × Buffer
  | [], b => ([], b)
  | (type, record) :: calls, b =>
    match append schema type record b with
    | .ok () after => ((type, record) :: (appendEach schema calls after).1, (appendEach schema calls after).2)
    | .error _ after => appendEach schema calls after

/-- What a run of calls adds to a buffer is read back by as many reads. Induction on the calls: one
that succeeds puts its body in front, one that fails adds nothing. -/
theorem appendEach_reads {schema : Schema} (distinct : ∀ d ∈ schema.messages, (d.fields.map Field.name).Nodup)
    {limit : Nat} {calls appended : List (String × Record)} {b after : Buffer}
    (run : appendEach schema calls b = (appended, after))
    (fits : ∀ call ∈ appended, ∀ field ∈ declaredRecord schema call.1 call.2, field.2.Fits limit) :
    ∃ data, b.Grows data after ∧ Reads (appended.mapM fun call => readBody schema limit call.1) data
      (appended.map fun call => normal schema call.1 call.2) := by
  induction calls generalizing b appended after with
  | nil =>
    cases run
    exact ⟨[], .refl _, .pure []⟩
  | cons call calls ih =>
    obtain ⟨type, record⟩ := call
    rw [appendEach] at run
    rcases append_cases schema type record with ⟨d, data, -, all, -⟩ | ⟨fault, all, -⟩
    · obtain ⟨middle, first, grows⟩ := all b
      rw [first] at run
      cases run
      obtain ⟨more, further, reads⟩ := ih rfl fun call later => fits call (List.mem_cons_of_mem _ later)
      have body := reads_of_append distinct first grows (fits (type, record) List.mem_cons_self)
      refine ⟨data ++ more, grows.trans further, ?_⟩
      rw [List.mapM_cons, List.map_cons]
      exact body.bind (reads.map (normal schema type record :: ·))
    · obtain ⟨middle, first, grows⟩ := all b
      rw [first] at run
      obtain ⟨data, further, reads⟩ := ih run fits
      exact ⟨data, grows.trans further, reads⟩

/-- Appending is atomic call by call, and a run of calls is read back. A call that fails leaves the
bytes of the buffer and the room it has; one that succeeds appends what encoding the message gives
after the tag, whatever the buffer. After the run, the messages appended come back one by one from
where the first of them started, and the last of them ends where the buffer does. -/
theorem appendEach_atomic {schema : Schema} (distinct : ∀ d ∈ schema.messages, (d.fields.map Field.name).Nodup) :
    (∀ (type : String) (record : Record) (b after : Buffer) (fault : Fault),
      append schema type record b = .error fault after →
        after.bytes = b.bytes ∧ b.capacity ≤ after.capacity) ∧
    (∀ (type : String) (record : Record) (b after : Buffer), append schema type record b = .ok () after →
      ∃ d body, schema.get? type = some d ∧ after.bytes = b.bytes ++ body ∧
        (∀ other : Buffer, ∃ full, append schema type record other = .ok () full ∧
          full.bytes = other.bytes ++ body) ∧
        ∀ config, encode schema config type record = .ok (Written.string d.version ++ body)) ∧
    ∀ (calls appended : List (String × Record)) (b after : Buffer) (limit : Nat),
      appendEach schema calls b = (appended, after) →
      (∀ call ∈ appended, ∀ field ∈ declaredRecord schema call.1 call.2, field.2.Fits limit) →
        b.bytes <+: after.bytes ∧ b.capacity ≤ after.capacity ∧
        (appended.mapM fun call => readBody schema limit call.1) ((Cursor.start after.bytes).advance b.length) =
          .ok (appended.map fun call => normal schema call.1 call.2) ⟨after.length, []⟩ := by
  refine ⟨fun type record b after fault failed => ?_, fun type record b after run => ?_,
    fun calls appended b after limit run fits => ?_⟩
  · rcases append_cases schema type record with ⟨d, data, -, all, -⟩ | ⟨fault, all, -⟩
    · obtain ⟨full, succeeded, -⟩ := all b
      cases succeeded.symm.trans failed
    · obtain ⟨same, refused, grows⟩ := all b
      cases refused.symm.trans failed
      exact ⟨by simpa using grows.bytes, grows.room⟩
  · rcases append_cases schema type record with ⟨d, body, found, all, alone⟩ | ⟨fault, all, -⟩
    · obtain ⟨full, succeeded, grows⟩ := all b
      cases succeeded.symm.trans run
      refine ⟨d, body, found, grows.bytes, fun other => ?_, alone⟩
      obtain ⟨full, succeeded, grows⟩ := all other
      exact ⟨full, succeeded, grows.bytes⟩
    · obtain ⟨same, refused, -⟩ := all b
      cases refused.symm.trans run
  · obtain ⟨data, grows, reads⟩ := appendEach_reads distinct run fits
    have start : (Cursor.start after.bytes).advance b.length = ⟨b.length, data ++ []⟩ := by
      simp [Cursor.start, Cursor.advance, grows.bytes, List.drop_left' (Buffer.length_bytes b)]
    have stop : after.length = b.length + data.length := by
      rw [← Buffer.length_bytes, grows.bytes, List.length_append, Buffer.length_bytes]
    refine ⟨⟨data, grows.bytes.symm⟩, grows.room, ?_⟩
    rw [start, stop]
    exact reads b.length []

/-- One written byte, and room for three that hold what was written there before. -/
def held : Buffer := ⟨#[9, 1, 2, 3], 1, by decide⟩

def leaf : Record := [("children", .array []), ("id", .int (-3))]

/-- The second message fails in its only child, after two bytes; the type of the third is unknown. -/
def trees : List (String × Record) :=
  [("Node", tree), ("Node", [("id", .int 1), ("children", .array [.record []])]), ("Gone", []), ("Node", leaf)]

theorem appendEach_trees : (appendEach node trees held).1 = [("Node", tree), ("Node", leaf)] ∧
    (appendEach node trees held).2.bytes = [9, 216, 4, 2, 14, 0, 5, 0] ∧
    ([("Node", tree), ("Node", leaf)].mapM fun call => readBody node 1 call.1)
        ((Cursor.start (appendEach node trees held).2.bytes).advance 1) =
      .ok [normal node "Node" tree, normal node "Node" leaf] ⟨8, []⟩ := by
  have found : node.get? "Node" =
      some ⟨"Node", "n1", [⟨"id", .int⟩, ⟨"children", .repeated (.message "Node")⟩]⟩ := rfl
  have fits : ∀ call ∈ [("Node", tree), ("Node", leaf)],
      ∀ field ∈ declaredRecord node call.1 call.2, field.2.Fits 1 := by
    have ofLeaf : ∀ field ∈ declaredRecord node "Node" leaf, field.2.Fits 1 := by
      simp [declaredRecord_eq _ found, leaf, declared, Keyed.get?, List.lookup_cons, Value.asInt?_int, Value.Fits,
        Written.lengthBound]
    have ofTree : ∀ field ∈ declaredRecord node "Node" tree, field.2.Fits 1 := by
      simp [declared_tree, Value.Fits, Written.lengthBound]
    exact List.forall_mem_cons.2 ⟨ofTree, List.forall_mem_singleton.2 ofLeaf⟩
  obtain ⟨-, -, runs⟩ := @appendEach_atomic node (by decide)
  exact ⟨rfl, rfl, (runs trees [("Node", tree), ("Node", leaf)] held (appendEach node trees held).2 1 rfl fits).2.2⟩

end Message

end Wirepack
