import Wirepack.Message.Decode
import Wirepack.Proofs.Reading
import Wirepack.Proofs.Runs
import Wirepack.Proofs.Values

/-!
# Reading by declared types

Two readers follow declared types: one looks messages up in a schema, the other in a family.
`Follows` says what they have in common, as equations for what each type makes them read. From
the equations alone it follows that either gives back a typed value from its bytes.
-/

namespace Wirepack
set_option autoImplicit false

namespace Keyed

variable {α : Type}

theorem insert_of_new {entries : Keyed α} {key : String} {value : α}
    (new : key ∉ entries.map Prod.fst) : entries.insert key value = entries ++ [(key, value)] := by
  induction entries with
  | nil => rfl
  | cons entry rest ih =>
    obtain ⟨k, v⟩ := entry
    simp only [List.map_cons, List.mem_cons, not_or] at new
    rw [insert, if_neg (Ne.symm new.1), ih new.2, List.cons_append]

theorem ofList_of_nodup {entries : List (String × α)} (distinct : (entries.map Prod.fst).Nodup) :
    ofList entries = entries := by
  -- The entries inserted so far stand before those still to come, all with different keys.
  suffices inserted : ∀ before : Keyed α, ((before ++ entries).map Prod.fst).Nodup →
      entries.foldl (fun acc entry => acc.insert entry.1 entry.2) before = before ++ entries from
    inserted [] distinct
  clear distinct
  induction entries with
  | nil => simp
  | cons entry rest ih =>
    intro before distinct
    obtain ⟨key, value⟩ := entry
    have new : key ∉ before.map Prod.fst := by
      intro old
      rw [List.map_append, List.nodup_append] at distinct
      exact distinct.2.2 key old key (by simp) rfl
    have rest := ih (before ++ [(key, value)]) (by simpa using distinct)
    rw [List.append_assoc, List.singleton_append] at rest
    rw [← rest, List.foldl_cons, ← insert_of_new new]

end Keyed

/-- Reads the fields one after another, each under its name. -/
def readNamed (readType : FieldType → Read Value) (fields : List Field) : Read Record :=
  fields.mapM fun f => do return (f.name, ← readType f.type)

/-- The reader goes by the types that `lookup` declares: `read levels type` reads a value of that
type with at most `levels` arrays and messages inside one another. -/
structure Follows (lookup : String → Option Definition) (limit : Nat)
    (read : Nat → FieldType → Read Value) : Prop where
  int : ∀ levels, read levels .int = do return .int (← Cursor.int)
  long : ∀ levels, read levels .long = do return .long (← Cursor.long)
  float : ∀ levels, read levels .float = do return .float (← Cursor.float)
  double : ∀ levels, read levels .double = do return .double (← Cursor.double)
  bool : ∀ levels, read levels .bool = do return .bool (← Cursor.bool)
  string : ∀ levels, read levels .string = do return .string (← Cursor.string)
  array : ∀ levels item, read (levels + 1) (.repeated item) = do
    let count ← Cursor.count limit
    return .array (← Cursor.times (read levels item) count)
  message : ∀ levels name d, lookup name = some d →
    read (levels + 1) (.message name) = do return .record (← readNamed (read levels) d.fields)

theorem names_of_readNamed {readType : FieldType → Read Value} {fields : List Field} {record : Record}
    {c after : Cursor} (read : readNamed readType fields c = .ok record after) :
    record.map Prod.fst = fields.map Field.name := by
  induction fields generalizing record c after with
  | nil =>
    obtain ⟨rfl, -⟩ := Run.pure_eq_ok.1 read
    rfl
  | cons f fields ih =>
    rw [readNamed, List.mapM_cons] at read
    obtain ⟨entry, middle, first, read⟩ := Run.bind_eq_ok.1 read
    obtain ⟨v, _, _, named⟩ := Run.bind_eq_ok.1 first
    obtain ⟨rfl, -⟩ := Run.pure_eq_ok.1 named
    obtain ⟨others, _, rest, whole⟩ := Run.bind_eq_ok.1 read
    obtain ⟨rfl, -⟩ := Run.pure_eq_ok.1 whole
    rw [List.map_cons, List.map_cons, ih rest]

/-- Fields of distinct names stay in the order in which they are read. -/
theorem Message.readFields_eq {readType : FieldType → Read Value} {d : Definition}
    (distinct : (d.fields.map Field.name).Nodup) :
    Message.readFields readType d = readNamed readType d.fields := by
  funext c
  have split : readFields readType d = (do return Keyed.ofList (← readNamed readType d.fields)) := rfl
  rw [split]
  simp only [bind, EStateM.bind, pure, EStateM.pure]
  cases read : readNamed readType d.fields c with
  | error fault after => rfl
  | ok record after =>
    have kept : Keyed.ofList record = record :=
      Keyed.ofList_of_nodup (by rw [names_of_readNamed read]; exact distinct)
    simp only [kept]

theorem Message.readValue_follows {schema : Schema} {limit : Nat}
    (distinct : ∀ d ∈ schema.messages, (d.fields.map Field.name).Nodup) :
    Follows schema.get? limit (Message.readValue schema limit) where
  int _ := by rw [readValue]
  long _ := by rw [readValue]
  float _ := by rw [readValue]
  double _ := by rw [readValue]
  bool _ := by rw [readValue]
  string _ := by rw [readValue]
  array _ _ := by rw [readValue]
  message levels name d found := by
    have known := distinct d (List.mem_of_find?_eq_some found)
    simp [readValue, Schema.require, found, MonadExcept.ofExcept, readFields_eq known]

theorem Message.read_eq {schema : Schema} {limit : Nat} {type : String} {d : Definition}
    (found : schema.get? type = some d) (distinct : (d.fields.map Field.name).Nodup) :
    Message.read schema limit type = (do
      Cursor.version d.version
      readNamed (readValue schema limit Schema.maxDepth) d.fields) := by
  simp [read, Schema.require, found, MonadExcept.ofExcept, readFields_eq distinct]

theorem Family.readField_follows (family : Family) (limit : Nat) :
    Follows family.get? limit (family.readField limit) where
  int _ := by rw [readField]
  long _ := by rw [readField]
  float _ := by rw [readField]
  double _ := by rw [readField]
  bool _ := by rw [readField]
  string _ := by rw [readField]
  array _ _ := by rw [readField]
  message levels name d found := by
    simp only [readField, found, readNamed]

theorem Reads.fields {readType : FieldType → Read Value} {declared : List Field} {fields : Record}
    (named : fields.map Prod.fst = declared.map Field.name)
    (reads : ∀ pair ∈ declared.zip fields, Reads (readType pair.1.type) pair.2.2.wire pair.2.2.requantized) :
    Reads (readNamed readType declared) (fields.flatMap fun field => field.2.wire)
      (fields.map fun field => (field.1, field.2.requantized)) := by
  induction declared generalizing fields with
  | nil =>
    obtain rfl : fields = [] := by simpa using named
    exact Reads.pure []
  | cons f declared ih =>
    obtain _ | ⟨⟨name, v⟩, fields⟩ := fields
    · simp at named
    · simp only [List.map_cons, List.cons.injEq] at named
      obtain ⟨rfl, named⟩ := named
      have first := reads (f, f.name, v) (by simp)
      have others := ih named fun pair member => reads pair (by simp [member])
      simp only [readNamed, List.mapM_cons, List.flatMap_cons, List.map_cons]
      exact (first.map (f.name, ·)).bind (others.map ((f.name, v.requantized) :: ·))

/-- A reader that follows the declarations gives back a typed value, floats apart, from its
bytes. Induction on the typing; the levels left bound the arrays and records still to come. -/
theorem Follows.reads {lookup : String → Option Definition} {limit : Nat}
    {read : Nat → FieldType → Read Value} (follows : Follows lookup limit read)
    {type : FieldType} {v : Value} (typed : v.Typed lookup type) (fits : v.Fits limit)
    {levels : Nat} (within : v.Within levels) :
    Reads (read levels type) v.wire v.requantized := by
  induction typed generalizing levels with
  | bool v =>
    rw [follows.bool, Value.wire, Value.requantized]
    exact (Reads.bool v).map Value.bool
  | int v =>
    rw [follows.int, Value.wire, Value.requantized]
    exact (Reads.int v).map Value.int
  | long v =>
    rw [follows.long, Value.wire, Value.requantized]
    exact (Reads.long v).map Value.long
  | float v =>
    rw [follows.float, Value.wire, Value.requantized]
    exact (Reads.float v).map Value.float
  | double v =>
    rw [follows.double, Value.wire, Value.requantized]
    exact (Reads.double v).map Value.double
  | string text =>
    rw [Value.Fits] at fits
    rw [follows.string, Value.wire, Value.requantized]
    exact (Reads.string fits).map Value.string
  | @array item items all ih =>
    rw [Value.Fits] at fits
    obtain ⟨allowed, small, fits⟩ := fits
    obtain _ | levels := levels
    · exact within.elim
    · rw [follows.array, Value.wire, Value.requantized]
      refine (Reads.count small allowed).bind ?_
      have elements : Reads (Cursor.times (read levels item) items.length) _ _ :=
        Reads.times fun v member => ih v member (fits v member) (within v member)
      exact elements.map Value.array
  | @record name d fields found named all ih =>
    rw [Value.Fits] at fits
    obtain _ | levels := levels
    · exact within.elim
    · rw [follows.message levels name d found, Value.wire, Value.requantized]
      have parts : Reads (readNamed (read levels) d.fields) _ _ := Reads.fields named fun pair member =>
        have inside := (List.of_mem_zip member).2
        ih pair member (fits pair.2 inside) (within pair.2 inside)
      exact parts.map Value.record

end Wirepack
