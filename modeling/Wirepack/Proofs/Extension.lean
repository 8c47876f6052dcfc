import Wirepack.Proofs.Composed
import Wirepack.Proofs.FamilySchema
import Wirepack.Proofs.RoundTrip

/-!
# Payloads with more bytes after them

No read looks past the bytes it takes. So what it makes of a payload stays as it is when more bytes
follow: the value or fault, and where the read stops. Only a fault for want of bytes may change. In
particular no payload that is read to its end is the start of another one.

A read of a declared type gives each byte left a share of levels, so more bytes mean more levels.
Neither number is ever used up, since a type that contains itself directly cannot be declared.
-/

namespace Wirepack
set_option autoImplicit false

/-- The fault says that bytes are missing. -/
def Fault.isUnderflow : Fault → Bool
  | .underflow .. => true
  | _ => false

/-- The same place, with more bytes after those that are left. -/
def Cursor.extend (c : Cursor) (extra : Bytes) : Cursor := ⟨c.position, c.rest ++ extra⟩

/-- Unless bytes are missing, the read does the same wherever more bytes follow. -/
structure Stable {α : Type} (read : Read α) : Prop where
  ok : ∀ {c after : Cursor} {a : α}, read c = .ok a after →
    ∀ extra, read (c.extend extra) = .ok a (after.extend extra)
  error : ∀ {c after : Cursor} {fault : Fault}, read c = .error fault after → fault.isUnderflow = false →
    ∀ extra, read (c.extend extra) = .error fault (after.extend extra)

namespace Stable

theorem byte : Stable Cursor.byte where
  ok {c after a} run extra := by
    obtain ⟨position, _ | ⟨first, rest⟩⟩ := c
    · cases run
    · cases run
      rfl
  error {c after fault} run enough := by
    obtain ⟨position, _ | ⟨first, rest⟩⟩ := c
    · cases run
      cases enough
    · cases run

theorem bytes (count : Nat) : Stable (Cursor.bytes count) where
  ok {c after a} run extra := by
    obtain ⟨inside, rfl, rfl⟩ := Cursor.bytes_eq_ok.1 run
    have insideToo : count ≤ (c.extend extra).remaining := by
      simp only [Cursor.remaining, Cursor.extend, List.length_append] at inside ⊢
      omega
    refine Cursor.bytes_eq_ok.2 ⟨insideToo, ?_, ?_⟩
    · simp only [Cursor.extend, List.take_append_of_le_length inside]
    · simp only [Cursor.extend, Cursor.advance, List.drop_append_of_le_length inside]
  error run enough := by
    obtain ⟨-, rfl, -⟩ := Cursor.bytes_eq_error.1 run
    cases enough

theorem bind {α β : Type} {first : Read α} {next : α → Read β} (start : Stable first)
    (goesOn : ∀ a, Stable (next a)) : Stable (first >>= next) where
  ok run extra := by
    obtain ⟨a, middle, begun, rest⟩ := Run.bind_eq_ok.1 run
    exact Run.bind_eq_ok.2 ⟨a, middle.extend extra, start.ok begun extra, (goesOn a).ok rest extra⟩
  error run enough extra := by
    rcases Run.bind_eq_error.1 run with stopped | ⟨a, middle, begun, rest⟩
    · exact Run.bind_eq_error.2 (.inl (start.error stopped enough extra))
    · exact Run.bind_eq_error.2 (.inr ⟨a, middle.extend extra, start.ok begun extra, (goesOn a).error rest enough extra⟩)

end Stable

/-- Induction on the steps: only the two that take bytes look at any, and they take what they look at. -/
theorem Composed.stable {α : Type} {read : Read α} (composed : Composed read) : Stable read := by
  induction composed with
  | pure a =>
    constructor
    · intro c after b run extra
      obtain ⟨rfl, rfl⟩ := Run.pure_eq_ok.1 run
      rfl
    · intro c after fault run
      cases run
  | throw fault =>
    constructor
    · intro c after b run
      cases run
    · intro c after other run _ extra
      cases run
      rfl
  | here =>
    constructor
    · intro c after position run extra
      cases run
      rfl
    · intro c after fault run
      cases run
  | byte => exact .byte
  | bytes count => exact .bytes count
  | bind start goesOn first next => exact first.bind next

/-- A read that takes all bytes takes no fewer: where the last are missing, it fails for want of them. -/
def PrefixFree {α : Type} (read : Read α) : Prop :=
  ∀ (position : Nat) (data part : Bytes) (a : α) (after : Cursor), read ⟨position, data⟩ = .ok a after →
    after.rest = [] → part <+: data → part ≠ data →
      ∃ fault stopped, read ⟨position, part⟩ = .error fault stopped ∧ fault.isUnderflow = true

/-- The value or fault of a read from the start of a payload. -/
def answer {α : Type} (read : Read α) (data : Bytes) : Except Fault α :=
  match read (.start data) with
  | .ok a _ => .ok a
  | .error fault _ => .error fault

namespace Stable

variable {α : Type} {read : Read α}

theorem prefixFree (stable : Stable read) : PrefixFree read := by
  intro position data part a after whole all ⟨extra, same⟩ shorter
  subst same
  have more : extra ≠ [] := by
    rintro rfl
    exact shorter (List.append_nil part).symm
  cases run : read ⟨position, part⟩ with
  | ok b stopped =>
    -- A value would be that of the whole payload, read with the missing bytes left over.
    have same := stable.ok run extra
    cases whole.symm.trans same
    exact (more (List.append_eq_nil_iff.1 all).2).elim
  | error fault stopped =>
    refine ⟨fault, stopped, rfl, ?_⟩
    cases missing : fault.isUnderflow with
    | true => rfl
    | false => cases whole.symm.trans (stable.error run missing extra)

theorem answer_append (stable : Stable read) {data : Bytes}
    (enough : ∀ fault, answer read data = .error fault → fault.isUnderflow = false) (extra : Bytes) :
    answer read (data ++ extra) = answer read data := by
  have longer : Cursor.start (data ++ extra) = (Cursor.start data).extend extra := rfl
  unfold answer at enough ⊢
  cases run : read (.start data) with
  | ok a after =>
    rw [longer, stable.ok run extra]
  | error fault after =>
    rw [run] at enough
    rw [longer, stable.error run (enough fault rfl) extra]

theorem answer_of_prefix (stable : Stable read) {data part : Bytes} {a : α} {after : Cursor}
    (whole : read (.start data) = .ok a after) (all : after.rest = []) (start : part <+: data)
    (shorter : part ≠ data) : ∃ fault, answer read part = .error fault ∧ fault.isUnderflow = true := by
  obtain ⟨fault, stopped, run, missing⟩ := stable.prefixFree 0 data part a after whole all start shorter
  exact ⟨fault, by rw [answer, Cursor.start, run], missing⟩

end Stable

namespace Family

variable {family : Family}

/-- Levels beyond those that the bytes left call for make no difference. The messages of `path` contain
the one that is read outside any array, so none of them is read again before the next array. -/
theorem readField_levels (unringed : ∀ name, ¬ Relation.TransGen family.Embeds name name)
    {limit levels more bound : Nat} {type : FieldType} {path : List String}
    (below : ∀ outer ∈ path, ∀ name, type = .message name → Relation.TransGen family.Embeds outer name)
    (enough : bound * (family.declarations.length + 1) + (family.whole.offPath path).length < levels)
    (enoughToo : bound * (family.declarations.length + 1) + (family.whole.offPath path).length < more) :
    SameUpTo bound (family.readField limit levels type) (family.readField limit more type) := by
  have follows := family.readField_follows limit
  have forward := fun levels type => (family.readField_composed limit levels type).takes
  induction levels using Nat.strongRecOn generalizing type more bound path with
  | ind levels ih =>
    obtain ⟨levels, rfl⟩ : ∃ n, levels = n + 1 := ⟨levels - 1, by omega⟩
    obtain ⟨more, rfl⟩ : ∃ n, more = n + 1 := ⟨more - 1, by omega⟩
    cases type with
    | int => rw [follows.int, follows.int]; exact .refl _
    | long => rw [follows.long, follows.long]; exact .refl _
    | float => rw [follows.float, follows.float]; exact .refl _
    | double => rw [follows.double, follows.double]; exact .refl _
    | bool => rw [follows.bool, follows.bool]; exact .refl _
    | string => rw [follows.string, follows.string]; exact .refl _
    | repeated item =>
      rw [follows.array, follows.array]
      refine .bind (Takes.count limit) (.refl _) fun count left le => ?_
      -- The byte of the count pays for all types below the array.
      have room : left * (family.declarations.length + 1) + (family.whole.offPath []).length <
          bound * (family.declarations.length + 1) := by
        have counted := Nat.mul_le_mul_right (family.declarations.length + 1) le
        have few := family.length_offPath_le []
        rw [Nat.succ_mul] at counted
        omega
      have elements : SameUpTo left (family.readField limit levels item) (family.readField limit more item) :=
        ih levels (Nat.lt_succ_self levels) (fun _ onPath => (List.not_mem_nil onPath).elim) (by omega) (by omega)
      exact (elements.times (forward levels item) count).map Value.array
    | message name =>
      cases declared : family.get? name with
      | none =>
        simp only [readField, declared]
        exact .refl _
      | some d =>
        have fresh : name ∉ path := fun onPath => unringed name (below name onPath name rfl)
        have fewer : (family.whole.offPath (name :: path)).length < (family.whole.offPath path).length :=
          Schema.offPath_cons_lt declared fresh
        rw [follows.message levels name d declared, follows.message more name d declared]
        refine SameUpTo.map (.fields (forward levels) fun f inside => ?_) Value.record
        refine ih levels (Nat.lt_succ_self levels) ?_
          (show _ + (family.whole.offPath (name :: path)).length < levels by omega)
          (show _ + (family.whole.offPath (name :: path)).length < more by omega)
        intro outer onPath inner isMessage
        have embeds : family.Embeds name inner := ⟨d, declared, f, inside, isMessage⟩
        rcases List.mem_cons.1 onPath with rfl | above
        · exact .single embeds
        · exact .tail (below outer above name rfl) embeds

theorem readBody_stable (unringed : ∀ name, ¬ Relation.TransGen family.Embeds name name) (limit : Nat)
    (d : Definition) : Stable (family.readBody limit d) := by
  -- With the levels of the longer payload, the read of the shorter one does the same.
  have same : ∀ (c : Cursor) (extra : Bytes), family.readBody limit d c =
      family.readField limit (family.levels (c.extend extra).remaining) (.message d.name) c := by
    intro c extra
    have few := family.length_offPath_le []
    have longer : c.remaining ≤ (c.extend extra).remaining := by
      simp [Cursor.remaining, Cursor.extend]
    have more := Nat.mul_le_mul_right (family.declarations.length + 1) longer
    refine readField_levels unringed (fun _ onPath => (List.not_mem_nil onPath).elim) ?_ ?_ c (Nat.le_refl _)
    · rw [levels, Nat.succ_mul]
      omega
    · rw [levels, Nat.succ_mul]
      omega
  constructor
  · intro c after v run extra
    rw [same c extra] at run
    exact (family.readField_composed limit _ _).stable.ok run extra
  · intro c after fault run enough extra
    rw [same c extra] at run
    exact (family.readField_composed limit _ _).stable.error run enough extra

theorem decode_eq_answer (family : Family) (config : Config) (d : Definition) :
    family.decode config d = answer (family.read config.maxCollection d) := by
  funext data
  unfold decode answer
  cases family.read config.maxCollection d (.start data) <;> rfl

theorem read_stable (unringed : ∀ name, ¬ Relation.TransGen family.Embeds name name) (limit : Nat)
    (d : Definition) : Stable (family.read limit d) :=
  (Composed.version d.version).stable.bind fun _ => readBody_stable unringed limit d

end Family

theorem Message.decode_eq_answer (schema : Schema) (config : Config) (type : String) :
    Message.decode schema config type = answer (Message.read schema config.maxCollection type) := by
  funext data
  unfold decode answer
  cases Message.read schema config.maxCollection type (.start data) <;> rfl

/-- What follows a payload has no bearing on how it is decoded, and a payload that is decoded to its
end has no payload among its strict prefixes. So do reads from any place in it, with or without a
version tag, by a schema of any kind or by declared types that do not contain themselves directly. -/
theorem Message.decode_stable (schema : Schema) (config : Config) (type : String) :
    Stable (read schema config.maxCollection type) ∧ PrefixFree (read schema config.maxCollection type) ∧
    Stable (readBody schema config.maxCollection type) ∧ PrefixFree (readBody schema config.maxCollection type) ∧
    (∀ data extra, (∀ fault, decode schema config type data = .error fault → fault.isUnderflow = false) →
      decode schema config type (data ++ extra) = decode schema config type data) ∧
    (∀ data part record after, read schema config.maxCollection type (.start data) = .ok record after →
      after.rest = [] → part <+: data → part ≠ data →
        ∃ fault, decode schema config type part = .error fault ∧ fault.isUnderflow = true) ∧
    ∀ (family : Family) (d : Definition), (∀ name, ¬ Relation.TransGen family.Embeds name name) →
      Stable (family.read config.maxCollection d) ∧ PrefixFree (family.read config.maxCollection d) ∧
      Stable (family.readBody config.maxCollection d) ∧ PrefixFree (family.readBody config.maxCollection d) ∧
      (∀ data extra, (∀ fault, family.decode config d data = .error fault → fault.isUnderflow = false) →
        family.decode config d (data ++ extra) = family.decode config d data) ∧
      ∀ data part v after, family.read config.maxCollection d (.start data) = .ok v after →
        after.rest = [] → part <+: data → part ≠ data →
          ∃ fault, family.decode config d part = .error fault ∧ fault.isUnderflow = true := by
  have payload := (read_composed schema config.maxCollection type).stable
  have body := (readBody_composed schema config.maxCollection type).stable
  rw [decode_eq_answer]
  refine ⟨payload, payload.prefixFree, body, body.prefixFree, fun data extra enough => payload.answer_append enough extra,
    fun data part record after => payload.answer_of_prefix, fun family d unringed => ?_⟩
  have payload := Family.read_stable unringed config.maxCollection d
  have body := Family.readBody_stable unringed config.maxCollection d
  rw [Family.decode_eq_answer]
  exact ⟨payload, payload.prefixFree, body, body.prefixFree, fun data extra enough => payload.answer_append enough extra,
    fun data part v after => payload.answer_of_prefix⟩

/-- A team contains a player, and nothing else contains a message outside an array. -/
theorem Family.league_unringed (name : String) : ¬ Relation.TransGen league.Embeds name name := by
  have only : ∀ outer inner, league.Embeds outer inner → outer = "Team" ∧ inner = "Player" := by
    rintro outer inner ⟨d, found, f, member, isMessage⟩
    have named : d.name = outer := by simpa using List.find?_some found
    have declared : d ∈ league.declarations := List.mem_of_find?_eq_some found
    simp only [league, List.mem_cons, List.not_mem_nil, or_false] at declared
    rcases declared with rfl | rfl | rfl <;> simp [player, team] at member named
    · rcases member with rfl | rfl <;> cases isMessage
    · rcases member with rfl | rfl | rfl <;> cases isMessage
      exact ⟨named.symm, rfl⟩
  intro ring
  obtain ⟨_, first, -⟩ := Relation.TransGen.head'_iff.1 ring
  obtain ⟨_, -, last⟩ := Relation.TransGen.tail'_iff.1 ring
  have asTeam := (only _ _ first).1
  rw [(only _ _ last).2] at asTeam
  exact absurd asTeam (by decide)

theorem Message.decode_stable_cut :
    (decode node ⟨0, 1⟩ "Node" ([4, 110, 50] ++ [216, 4]) = .error (.versionMismatch "n1" "n2")) ∧
    (∃ fault, decode node ⟨0, 1⟩ "Node" [4, 110, 49, 216, 4, 2, 14] = .error fault ∧ fault.isUnderflow = true) ∧
    ∃ fault, Family.league.decode ⟨0, 1⟩ Family.team [4, 116, 50, 0, 0, 0] = .error fault ∧
      fault.isUnderflow = true := by
  obtain ⟨-, -, -, -, extended, cut, declared⟩ := decode_stable node ⟨0, 1⟩ "Node"
  obtain ⟨-, -, -, -, -, cutToo⟩ := declared Family.league Family.team Family.league_unringed
  have refused : decode node ⟨0, 1⟩ "Node" [4, 110, 50] = .error (.versionMismatch "n1" "n2") := rfl
  refine ⟨?_, ?_, ?_⟩
  · rw [extended [4, 110, 50] [216, 4] (by rw [refused]; rintro fault ⟨⟩; rfl), refused]
  · exact cut [4, 110, 49, 216, 4, 2, 14, 0] _ _ ⟨8, []⟩ rfl rfl (by decide) (by decide)
  · exact cutToo [4, 116, 50, 0, 0, 0, 0] _ _ ⟨7, []⟩ rfl rfl (by decide) (by decide)

end Wirepack
