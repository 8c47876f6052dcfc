import Mathlib.Control.Monad.Basic
import Wirepack.Command.Run
import Wirepack.Proofs.FileWrites
import Wirepack.Proofs.JsonReading

/-!
# What a command changes

All steps of a run but one only look at the files. What such a step gives is decided by the files alone,
and it leaves them as they are, also where it fails. Encoding ends in the one step that writes: whatever
was looked at before it comes from the files as they stood at the start, even if the output takes the
place of the input or of the schema.
-/

namespace Wirepack
set_option autoImplicit false

namespace Files

/-- The text in the file at a path. -/
def Holds (files : Files) (path text : String) : Prop :=
  ∃ data, files.read path = .ok data ∧ Utf8.decode? data = some text

/-- The schema in the file at a path. -/
def HoldsSchema (files : Files) (path : String) (schema : Schema) : Prop :=
  ∃ text, files.Holds path text ∧ Schema.Text.parse text = .ok schema

end Files

/-- The message type to use: the one asked for, if it is defined, and the first one if none is. -/
inductive Schema.Chosen (schema : Schema) : Option String → String → Prop where
  | named {name : String} {d : Definition} (found : schema.get? name = some d) : Chosen schema (some name) name
  | first {d : Definition} {rest : List Definition} (messages : schema.messages = d :: rest) : Chosen schema none d.name

/-- The payload of the JSON text in one file, under the schema in another, by a reader of such texts. -/
def Files.Encoded (files : Files) (parse : String → Except String Json) (schemaPath : String) (name : Option String)
    (input : String) (data : Bytes) : Prop :=
  ∃ schema type text, files.HoldsSchema schemaPath schema ∧ schema.Chosen name type ∧ files.Holds input text ∧
    Message.encodeJsonWith parse schema {} type text = .ok data

section Uniqueness

variable {files : Files} {path : String}

theorem Files.Holds.unique {text text' : String} (holds : files.Holds path text) (holds' : files.Holds path text') :
    text = text' := by
  obtain ⟨data, content, decoded⟩ := holds
  obtain ⟨data', content', decoded'⟩ := holds'
  cases content.symm.trans content'
  exact Option.some.inj (decoded.symm.trans decoded')

theorem Files.HoldsSchema.unique {schema schema' : Schema} (holds : files.HoldsSchema path schema)
    (holds' : files.HoldsSchema path schema') : schema = schema' := by
  obtain ⟨text, content, parsed⟩ := holds
  obtain ⟨text', content', parsed'⟩ := holds'
  obtain rfl := content.unique content'
  exact Except.ok.inj (parsed.symm.trans parsed')

theorem Schema.Chosen.unique {schema : Schema} {name : Option String} {type type' : String}
    (chosen : schema.Chosen name type) (chosen' : schema.Chosen name type') : type = type' := by
  cases chosen with
  | named found =>
    cases chosen' with
    | named found' => rfl
  | first messages =>
    cases chosen' with
    | first messages' =>
      cases messages.symm.trans messages'
      rfl

/-- The files leave no choice of the payload. -/
theorem Files.Encoded.unique {parse : String → Except String Json} {name : Option String} {input : String}
    {data data' : Bytes} (encoded : files.Encoded parse path name input data)
    (encoded' : files.Encoded parse path name input data') : data = data' := by
  obtain ⟨schema, type, text, declared, chosen, content, written⟩ := encoded
  obtain ⟨schema', type', text', declared', chosen', content', written'⟩ := encoded'
  obtain rfl := declared.unique declared'
  obtain rfl := chosen.unique chosen'
  obtain rfl := content.unique content'
  exact Except.ok.inj (written.symm.trans written')

end Uniqueness

namespace Run

variable {α β : Type}

/-- The step changes no file, whether it succeeds or fails. -/
structure Quiet (step : Run α) : Prop where
  ok : ∀ {s t a}, step s = .ok a t → t.files = s.files
  error : ∀ {s t reason}, step s = .error reason t → t.files = s.files

/-- The step is quiet and succeeds with just what the files give. -/
structure Looks (step : Run α) (gives : Files → α → Prop) : Prop extends Quiet step where
  answers : ∀ {s a}, (∃ t, step s = .ok a t) ↔ gives s.files a

/-- The step writes data that the files give to a file at `path`. It fails, and changes no file, where the
files give none or the path cannot be written. -/
structure Writes (step : Run α) (path : String) (gives : Files → Bytes → Prop) : Prop where
  error : ∀ {s t reason}, step s = .error reason t → t.files = s.files
  ok : ∀ {s t a}, step s = .ok a t → ∃ data, gives s.files data ∧ s.files.write path data = .ok t.files
  succeeds : ∀ {s data}, gives s.files data → s.files.Writable path → ∃ a t, step s = .ok a t

section Sequences

theorem Quiet.pure (a : α) : Quiet (pure a) := by
  constructor
  · intro s t b run
    rw [(pure_eq_ok.1 run).2]
  · intro s t reason run
    cases run

theorem Quiet.throw (reason : String) : Quiet (throw reason : Run α) := by
  constructor
  · intro s t a run
    cases run
  · intro s t reason run
    cases run
    rfl

theorem Quiet.bind {first : Run α} {next : α → Run β} (quiet : Quiet first) (goesOn : ∀ a, Quiet (next a)) :
    Quiet (first >>= next) := by
  constructor
  · intro s t b run
    obtain ⟨a, u, done, rest⟩ := bind_eq_ok.1 run
    rw [(goesOn a).ok rest, quiet.ok done]
  · intro s t reason run
    rcases bind_eq_error.1 run with failed | ⟨a, u, done, rest⟩
    · exact quiet.error failed
    · rw [(goesOn a).error rest, quiet.ok done]

theorem Looks.pure (a : α) : Looks (pure a) fun _ b => a = b := by
  refine ⟨Quiet.pure a, ?_⟩
  intro s b
  constructor
  · intro ⟨t, run⟩
    exact (pure_eq_ok.1 run).1
  · intro same
    exact ⟨s, pure_eq_ok.2 ⟨same, rfl⟩⟩

theorem Looks.throw (reason : String) : Looks (throw reason : Run α) fun _ _ => False := by
  refine ⟨Quiet.throw reason, ?_⟩
  intro s a
  constructor
  · intro ⟨t, run⟩
    cases run
  · exact False.elim

theorem Looks.bind {first : Run α} {next : α → Run β} {P : Files → α → Prop} {Q : α → Files → β → Prop}
    (looks : Looks first P) (goesOn : ∀ a, Looks (next a) (Q a)) :
    Looks (first >>= next) fun files b => ∃ a, P files a ∧ Q a files b := by
  refine ⟨looks.toQuiet.bind fun a => (goesOn a).toQuiet, ?_⟩
  intro s b
  constructor
  · intro ⟨t, run⟩
    obtain ⟨a, u, done, rest⟩ := bind_eq_ok.1 run
    have later := (goesOn a).answers.1 ⟨t, rest⟩
    rw [looks.ok done] at later
    exact ⟨a, looks.answers.1 ⟨u, done⟩, later⟩
  · intro ⟨a, given, later⟩
    obtain ⟨u, done⟩ := looks.answers.2 given
    rw [← looks.ok done] at later
    obtain ⟨t, rest⟩ := (goesOn a).answers.2 later
    exact ⟨t, bind_eq_ok.2 ⟨a, u, done, rest⟩⟩

theorem Looks.congr {step : Run α} {P Q : Files → α → Prop} (looks : Looks step P)
    (same : ∀ files a, P files a ↔ Q files a) : Looks step Q :=
  ⟨looks.toQuiet, looks.answers.trans (same _ _)⟩

/-- What is looked at before a write decides what is written. -/
theorem Looks.writes {first : Run α} {next : α → Run β} {path : String} {P : Files → α → Prop}
    {Q : α → Files → Bytes → Prop} (looks : Looks first P) (goesOn : ∀ a, Writes (next a) path (Q a)) :
    Writes (first >>= next) path fun files data => ∃ a, P files a ∧ Q a files data := by
  refine ⟨?_, ?_, ?_⟩
  · intro s t reason run
    rcases bind_eq_error.1 run with failed | ⟨a, u, done, rest⟩
    · exact looks.error failed
    · rw [(goesOn a).error rest, looks.ok done]
  · intro s t b run
    obtain ⟨a, u, done, rest⟩ := bind_eq_ok.1 run
    obtain ⟨data, later, wrote⟩ := (goesOn a).ok rest
    rw [looks.ok done] at later wrote
    exact ⟨data, ⟨a, looks.answers.1 ⟨u, done⟩, later⟩, wrote⟩
  · intro s data ⟨a, given, later⟩ writable
    obtain ⟨u, done⟩ := looks.answers.2 given
    rw [← looks.ok done] at later writable
    obtain ⟨b, t, rest⟩ := (goesOn a).succeeds later writable
    exact ⟨b, t, bind_eq_ok.2 ⟨a, u, done, rest⟩⟩

theorem Writes.congr {step : Run α} {path : String} {P Q : Files → Bytes → Prop} (writes : Writes step path P)
    (same : ∀ files data, P files data ↔ Q files data) : Writes step path Q := by
  refine ⟨writes.error, ?_, fun given => writes.succeeds ((same _ _).2 given)⟩
  intro s t a run
  obtain ⟨data, given, wrote⟩ := writes.ok run
  exact ⟨data, (same _ _).1 given, wrote⟩

end Sequences

section Looking

theorem looks_logLine (level : Level) (origin text : String) : Looks (logLine level origin text) fun _ _ => True := by
  refine ⟨⟨?_, ?_⟩, ?_⟩
  · intro s t a run
    cases run
    rfl
  · intro s t reason run
    cases run
  · intro s a
    exact ⟨fun _ => trivial, fun _ => ⟨_, rfl⟩⟩

theorem Looks.logged {next : Unit → Run α} {P : Files → α → Prop} (level : Level) (origin text : String)
    (looks : Looks (next ()) P) : Looks (logLine level origin text >>= next) P :=
  ((looks_logLine level origin text).bind fun _ => looks).congr fun _ _ => by simp

theorem Looks.noted {cond : Prop} [Decidable cond] {next : Unit → Run α} {P : Files → α → Prop} (level : Level)
    (origin text : String) (looks : Looks (next ()) P) :
    Looks (if cond then logLine level origin text >>= next else next ()) P := by
  split
  · exact looks.logged level origin text
  · exact looks

theorem looks_orFail (result : Except Fault α) : Looks (orFail result) fun _ a => result = .ok a := by
  cases result with
  | ok a => exact (Looks.pure a).congr (by simp)
  | error fault => exact (Looks.throw _).congr (by simp)

theorem looks_needed (path : String) (content : Except FileFault α) :
    Looks (needed path content) fun _ a => content = .ok a := by
  cases content with
  | ok a => exact (Looks.pure a).congr (by simp)
  | error fault => exact (Looks.throw _).congr (by simp)

theorem looks_readFile (path : String) : Looks (readFile path) fun files content => files.read path = content := by
  refine ⟨⟨?_, ?_⟩, ?_⟩
  · intro s t a run
    cases run
    rfl
  · intro s t reason run
    cases run
  · intro s content
    constructor
    · intro ⟨t, run⟩
      cases run
      rfl
    · intro same
      exact ⟨s, by rw [← same]; rfl⟩

/-- The content of a file as text. -/
def textOf (content : Except FileFault Bytes) : Except FileFault String :=
  content.bind fun data =>
    match Utf8.decode? data with
    | some text => .ok text
    | none => .error .notText

theorem textOf_eq_ok {files : Files} {path text : String} :
    textOf (files.read path) = .ok text ↔ files.Holds path text := by
  unfold textOf Files.Holds
  cases files.read path with
  | error fault => simp [Except.bind]
  | ok data => cases decoded : Utf8.decode? data <;> simp [Except.bind, decoded]

theorem looks_readText (path : String) :
    Looks (readText path) fun files content => textOf (files.read path) = content := by
  unfold readText
  refine ((looks_readFile path).bind fun content => Looks.pure (textOf content)).congr ?_
  intro files content
  simp

theorem looks_loadSchema (path : String) : Looks (loadSchema path) fun files schema => files.HoldsSchema path schema := by
  unfold loadSchema
  refine Looks.noted _ _ _ ?_
  refine ((looks_readText path).bind (Q := fun content _ schema =>
    ∃ text, content = .ok text ∧ Schema.Text.parse text = .ok schema) fun content => ?_).congr ?_
  · cases content with
    | error fault => exact (Looks.throw _).congr (by simp)
    | ok text =>
      refine Looks.logged _ _ _ ?_
      cases parsed : Schema.Text.parse text with
      | error fault => exact (Looks.throw _).congr (by simp [parsed])
      | ok schema =>
        refine Looks.logged _ _ _ ((Looks.pure schema).congr ?_)
        simp [parsed]
  · intro files schema
    simp [Files.HoldsSchema, textOf_eq_ok]

theorem looks_resolve (schema : Schema) (name : Option String) :
    Looks (resolve schema name) fun _ type => schema.Chosen name type := by
  unfold resolve
  cases name with
  | some name =>
    refine ((looks_orFail (schema.require name)).bind fun _ => Looks.pure name).congr ?_
    intro _ type
    constructor
    · intro ⟨d, required, same⟩
      subst same
      unfold Schema.require at required
      split at required
      · next found => exact .named found
      · cases required
    · intro chosen
      cases chosen with
      | @named _ d found => exact ⟨d, by rw [Schema.require, found], rfl⟩
  | none =>
    refine (looks_orFail schema.rootName).congr ?_
    intro _ type
    unfold Schema.rootName Schema.root?
    constructor
    · intro rooted
      cases messages : schema.messages with
      | nil => simp [messages] at rooted
      | cons d rest =>
        obtain rfl : d.name = type := by simpa [messages] using rooted
        exact .first messages
    · intro chosen
      cases chosen with
      | first messages => simp [messages]

end Looking

section Commands

theorem quiet_showSchema (path : String) (json : Bool) : Quiet (showSchema path json) := by
  unfold showSchema
  refine (looks_loadSchema path).toQuiet.bind fun schema => ?_
  split
  · exact Quiet.pure _
  · exact Quiet.pure _

theorem quiet_checkSchema (path : String) : Quiet (checkSchema path) := by
  unfold checkSchema
  refine (looks_loadSchema path).toQuiet.bind fun schema => ?_
  exact (looks_orFail schema.rootName).toQuiet.bind fun root => Quiet.pure _

theorem quiet_decodePayload (schema : Schema) (type : String) (data : Bytes) :
    Quiet (decodePayload schema type data) := by
  unfold decodePayload
  split
  · exact (looks_logLine _ _ _).toQuiet.bind fun _ => Quiet.pure _
  · next fault _ _ =>
    cases fault with
    | versionMismatch => exact (looks_logLine _ _ _).toQuiet.bind fun _ => Quiet.throw _
    | _ => exact Quiet.throw _

theorem quiet_decode (schemaPath : String) (name : Option String) (input : String) (pretty : Bool) :
    Quiet (decode schemaPath name input pretty) := by
  unfold decode
  refine (looks_loadSchema schemaPath).toQuiet.bind fun schema => ?_
  refine (looks_resolve schema name).toQuiet.bind fun type => ?_
  refine (looks_readFile input).toQuiet.bind fun content => ?_
  refine (looks_needed input content).toQuiet.bind fun data => ?_
  refine (quiet_decodePayload schema type data).bind fun record => ?_
  exact (looks_orFail (Message.toJson schema type record)).toQuiet.bind fun json => Quiet.pure _

theorem quiet_inspect (input : String) (limit : Nat) : Quiet (inspect input limit) := by
  unfold inspect
  refine (looks_readFile input).toQuiet.bind fun content => ?_
  refine (looks_needed input content).toQuiet.bind fun data => ?_
  split
  · exact Quiet.throw _
  · exact Quiet.pure _

/-- The one step that writes. -/
theorem writes_save (path : String) (data : Bytes) (refusal : FileFault → String) (text : String) :
    Writes (do
      let s ← get
      match s.files.write path data with
      | .error fault => throw (refusal fault)
      | .ok files =>
        set { s with files }
        return text) path fun _ d => data = d := by
  refine ⟨?_, ?_, ?_⟩
  · intro s t reason run
    rcases bind_eq_error.1 run with failed | ⟨_, _, got, saved⟩
    · cases failed
    · cases got
      cases wrote : s.files.write path data with
      | error fault =>
        rw [wrote] at saved
        cases saved
        rfl
      | ok after =>
        rw [wrote] at saved
        cases saved
  · intro s t printed run
    obtain ⟨_, _, got, saved⟩ := bind_eq_ok.1 run
    cases got
    cases wrote : s.files.write path data with
    | error fault =>
      rw [wrote] at saved
      cases saved
    | ok after =>
      rw [wrote] at saved
      cases saved
      exact ⟨data, rfl, wrote⟩
  · intro s d same ⟨place, found, free⟩
    have wrote : s.files.write path data = .ok _ := Files.write_eq_ok.2 ⟨place, found, free, rfl⟩
    exact ⟨_, _, bind_eq_ok.2 ⟨s, s, rfl, by rw [wrote]; rfl⟩⟩

theorem writes_encode (parse : String → Except String Json) (schemaPath : String) (name : Option String)
    (input output : String) : Writes (encode parse schemaPath name input output) output
      fun files data => files.Encoded parse schemaPath name input data := by
  unfold encode
  refine ((looks_loadSchema schemaPath).writes fun schema => (looks_resolve schema name).writes fun type =>
    (looks_readText input).writes fun content => (looks_needed input content).writes fun text =>
      (looks_orFail (Message.encodeJsonWith parse schema {} type text)).writes fun data =>
        (looks_logLine _ _ _).writes fun _ => writes_save output data _ _).congr ?_
  intro files data
  simp [Files.Encoded, textOf_eq_ok]

/-- A command that is not encoding changes no file. -/
theorem quiet_command {parse : String → Except String Json} {c : Command}
    (other : ∀ schema message input output, c ≠ .encode schema message input output) : Quiet (command parse c) := by
  cases c with
  | showSchema schema json => exact quiet_showSchema schema json
  | checkSchema schema => exact quiet_checkSchema schema
  | encode schema message input output => exact absurd rfl (other schema message input output)
  | decode schema message input pretty => exact quiet_decode schema message input pretty
  | inspect input limit => exact quiet_inspect input limit

/-- No command changes a file and then fails. -/
theorem files_of_error {parse : String → Except String Json} {c : Command} {s t : Session} {reason : String}
    (run : command parse c s = .error reason t) : t.files = s.files := by
  by_cases encoding : ∃ schema message input output, c = .encode schema message input output
  · obtain ⟨schema, message, input, output, rfl⟩ := encoding
    exact (writes_encode parse schema message input output).error run
  · refine (quiet_command ?_).error run
    intro schema message input output same
    exact encoding ⟨schema, message, input, output, same⟩

end Commands

end Run

section Executions

variable {readers : Readers} {files : Files} {arguments : List String} {verbose : Bool} {c : Command}

theorem execute_of_ok {text : String} {after : Session} (asked : readers.invocation arguments = .run verbose c)
    (run : Run.command readers.json c ⟨files, []⟩ = .ok text after) :
    (readers.execute files arguments).status = 0 ∧ (readers.execute files arguments).files = after.files := by
  unfold Readers.execute
  rw [asked]
  simp only [run]
  exact ⟨trivial, trivial⟩

theorem execute_of_error {reason : String} {after : Session}
    (asked : readers.invocation arguments = .run verbose c)
    (run : Run.command readers.json c ⟨files, []⟩ = .error reason after) :
    (readers.execute files arguments).status = 1 ∧ (readers.execute files arguments).files = after.files := by
  unfold Readers.execute
  rw [asked]
  simp only [run]
  exact ⟨trivial, trivial⟩

/-- A run without a command changes no file. -/
theorem asked_or_idle (readers : Readers) (files : Files) (arguments : List String) :
    (∃ verbose c, readers.invocation arguments = .run verbose c) ∨ (readers.execute files arguments).files = files := by
  unfold Readers.execute
  cases readers.invocation arguments with
  | run verbose c => exact .inl ⟨verbose, c, rfl⟩
  | version => exact .inr rfl
  | help => exact .inr rfl
  | usage => exact .inr rfl

theorem files_of_quiet (asked : readers.invocation arguments = .run verbose c)
    (quiet : Run.Quiet (Run.command readers.json c)) :
    (readers.execute files arguments).files = files := by
  cases run : Run.command readers.json c ⟨files, []⟩ with
  | ok text after => rw [(execute_of_ok asked run).2, quiet.ok run]
  | error reason after => rw [(execute_of_error asked run).2, quiet.error run]

theorem files_of_failure (failed : (readers.execute files arguments).status ≠ 0) :
    (readers.execute files arguments).files = files := by
  rcases asked_or_idle readers files arguments with ⟨verbose, c, asked⟩ | kept
  · cases run : Run.command readers.json c ⟨files, []⟩ with
    | ok text after => exact absurd (execute_of_ok asked run).1 failed
    | error reason after => rw [(execute_of_error asked run).2, Run.files_of_error run]
  · exact kept

end Executions

/-- However command lines and JSON texts are read, a run changes a file only by encoding, and then only the
output. A run of another command, and every run that fails, leaves the files as they are. An encoding run
succeeds exactly if, of the files as they are at its start, the schema file gives a schema with the message
to use, the input file gives a text that this message can be encoded from, and the output can be written.
Then the output holds the payload. -/
theorem execute_changes_output (readers : Readers) (files : Files) (arguments : List String) :
    ((readers.execute files arguments).status ≠ 0 → (readers.execute files arguments).files = files) ∧
    ((∀ verbose schema message input output,
        readers.invocation arguments ≠ .run verbose (.encode schema message input output)) →
      (readers.execute files arguments).files = files) ∧
    ∀ verbose schema message input output,
      readers.invocation arguments = .run verbose (.encode schema message input output) →
      ((readers.execute files arguments).status = 0 ↔
        (∃ data, files.Encoded readers.json schema message input data) ∧ files.Writable output) ∧
      ((readers.execute files arguments).status = 0 →
        ∃ data, files.Encoded readers.json schema message input data ∧
          files.Replaced output data (readers.execute files arguments).files) := by
  refine ⟨files_of_failure, ?_, ?_⟩
  · intro other
    rcases asked_or_idle readers files arguments with ⟨verbose, c, asked⟩ | kept
    · apply files_of_quiet asked
      apply Run.quiet_command
      intro schema message input output same
      exact other verbose schema message input output (same ▸ asked)
    · exact kept
  · intro verbose schema message input output asked
    have writes := Run.writes_encode readers.json schema message input output
    cases run : Run.command readers.json (.encode schema message input output) ⟨files, []⟩ with
    | ok text after =>
      obtain ⟨zero, left⟩ := execute_of_ok asked run
      obtain ⟨data, encoded, wrote⟩ := writes.ok run
      obtain ⟨place, found, free, -⟩ := Files.write_eq_ok.1 wrote
      rw [left]
      exact ⟨⟨fun _ => ⟨⟨data, encoded⟩, place, found, free⟩, fun _ => zero⟩,
        fun _ => ⟨data, encoded, Files.replaced_of_write wrote⟩⟩
    | error reason after =>
      have one := (execute_of_error asked run).1
      have nonzero : (readers.execute files arguments).status ≠ 0 := by
        rw [one]
        decide
      refine ⟨⟨fun zero => absurd zero nonzero, ?_⟩, fun zero => absurd zero nonzero⟩
      intro ⟨⟨data, encoded⟩, writable⟩
      obtain ⟨text, after', succeeded⟩ := writes.succeeds (s := ⟨files, []⟩) encoded writable
      cases run.symm.trans succeeded

section Desk

def deskText : String := "version=1 class A\x7bint n;\x7dclass B\x7b\x7d"

def deskSchema : Schema := ⟨"1", [⟨"A", "1", [⟨"n", .int⟩]⟩, ⟨"B", "1", []⟩]⟩

def deskJson : String := "\x7b\"n\":3\x7d"

/-- A schema and a message in JSON. -/
def desk : Files := [("s.buff", .file (Utf8.encode deskText)), ("in.json", .file (Utf8.encode deskJson))]

theorem desk_holdsSchema : desk.HoldsSchema "s.buff" deskSchema :=
  ⟨deskText, ⟨Utf8.encode deskText, by decide +kernel, by decide +kernel⟩, by decide +kernel⟩

theorem encodeJson_deskJson : Message.encodeJson deskSchema {} "A" deskJson = .ok [2, 49, 6] := by
  have parsed : Json.parse deskJson = .ok (.object [("n", .ofInt 3)]) := by decide +kernel
  have known : deskSchema.get? "A" = some ⟨"A", "1", [⟨"n", .int⟩]⟩ := rfl
  refine Check.bind_eq_ok.2 ⟨[("n", .int 3)], ?_, by decide +kernel⟩
  rw [Message.ofJsonTextWith, parsed]
  apply (Message.ofJson_eq_ok (by decide)).2
  refine .object known rfl (by decide) (List.forall_mem_cons.2 ⟨?_, by simp⟩)
  rintro part ⟨⟩
  exact .int rfl rfl

theorem desk_encoded : desk.Encoded Json.parse "s.buff" none "in.json" [2, 49, 6] := by
  have input : desk.Holds "in.json" deskJson := ⟨Utf8.encode deskJson, by decide +kernel, by decide +kernel⟩
  have first : deskSchema.Chosen none "A" := .first (d := ⟨"A", "1", [⟨"n", .int⟩]⟩) rfl
  exact ⟨deskSchema, "A", deskJson, desk_holdsSchema, first, input, encodeJson_deskJson⟩

/-- Encodes with the output named in another way than the input whose place it takes. -/
def deskOver : List String := ["encode", "-s", "s.buff", "in.json", "-o", "./in.json"]

/-- Encodes as a message that the schema does not define. -/
def deskUndefined : List String := ["encode", "-s", "s.buff", "-m", "C", "in.json", "-o", "s.buff"]

theorem execute_changes_output_desk :
    ((execute desk deskOver).status = 0 ∧ (execute desk deskOver).files.read "in.json" = .ok [2, 49, 6]) ∧
    ((execute desk deskUndefined).status ≠ 0 ∧ (execute desk deskUndefined).files = desk) ∧
    (execute desk ["inspect", "in.json"]).files = desk := by
  refine ⟨?_, ?_, ?_⟩
  · obtain ⟨-, -, encoding⟩ := execute_changes_output .standard desk deskOver
    have asked : Invocation.ofArguments deskOver = .run false (.encode "s.buff" none "in.json" "./in.json") := by
      decide +kernel
    have input : desk.target "in.json" = .ok ⟨false, 0, ["in.json"]⟩ := by decide +kernel
    have output : desk.target "./in.json" = .ok ⟨false, 0, ["in.json"]⟩ := by decide +kernel
    obtain ⟨succeeds, effect⟩ := encoding _ _ _ _ _ asked
    have zero := succeeds.2 ⟨⟨_, desk_encoded⟩, _, output, by decide +kernel⟩
    obtain ⟨data, encoded, replaced⟩ := effect zero
    obtain rfl := desk_encoded.unique encoded
    exact ⟨zero, replaced.content "in.json" ⟨_, Files.leads_of_target input, Files.leads_of_target output⟩⟩
  · obtain ⟨failing, -, encoding⟩ := execute_changes_output .standard desk deskUndefined
    have asked : Invocation.ofArguments deskUndefined = .run false (.encode "s.buff" (some "C") "in.json" "s.buff") := by
      decide +kernel
    have unknown : deskSchema.get? "C" = none := by decide +kernel
    have nonzero : (execute desk deskUndefined).status ≠ 0 := by
      intro zero
      obtain ⟨data, ⟨schema, _, _, declared, chosen, -⟩, -⟩ := (encoding _ _ _ _ _ asked).2 zero
      obtain rfl := desk_holdsSchema.unique declared
      cases chosen with
      | named found => cases unknown.symm.trans found
    exact ⟨nonzero, failing nonzero⟩
  · obtain ⟨-, other, -⟩ := execute_changes_output .standard desk ["inspect", "in.json"]
    have asked : Readers.standard.invocation ["inspect", "in.json"] = .run false (.inspect "in.json" 256) := by
      decide +kernel
    apply other
    rw [asked]
    simp

end Desk

end Wirepack
