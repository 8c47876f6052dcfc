import Wirepack.Proofs.VersionGate

/-!
# Faults tell the truth

A fault of the decoder names a place in the payload and says what is wrong there. Both can be checked
on the payload alone, without decoding it again: how many bytes are left, whether a number ends, which
number it is, and whether bytes are those of a text. `Fault.TrueOf` says what each fault stands for in
these terms, and every fault that decoding gives is true in this sense, however deep in a message it
arises.
-/

namespace Wirepack
set_option autoImplicit false

/-- The bytes from `start` to `stop` are a varint, which stands for `value` by zigzag. -/
def ZigzagAt (data : Bytes) (start stop : Nat) (value : Int) : Prop :=
  ∃ u, Varint.Spells (data.extract start stop) u ∧ (Zigzag.decode64 u).toInt = value

/-- What a fault says of the payload, the schema and the limit on elements. The faults that say nothing
of these do not arise from a body. -/
def Fault.TrueOf (schema : Schema) (limit : Nat) (data : Bytes) : Fault → Prop
  | .underflow requested available position => position + available = data.length ∧ available < requested
  | .malformedVarint position =>
    position + 10 ≤ data.length ∧ ∀ byte ∈ data.extract position (position + 10), 0x80 ≤ byte
  | .invalidLength length position => length < 0 ∧ ∃ stop, ZigzagAt data position stop length.toInt
  | .lengthExceeded length bound position =>
    bound = limit ∧ limit < length ∧ ∃ stop, ZigzagAt data position stop length
  | .invalidUtf8 position _ => ∃ start size : Nat, ZigzagAt data start position size ∧
    position + size ≤ data.length ∧ ∀ text, Utf8.encode text ≠ data.extract position (position + size)
  | .typeNotFound name => schema.get? name = none
  | .invalidSchema _ defect => defect = .tooDeep
  | _ => False

theorem Schema.Refuses.trueOf {schema : Schema} {fault : Fault} (refuses : schema.Refuses fault) (limit : Nat)
    (data : Bytes) : fault.TrueOf schema limit data := by
  cases refuses with
  | undefined unknown => exact unknown
  | tooDeep name => rfl

namespace Cursor.Inside

variable {schema : Schema} {limit : Nat} {data : Bytes} {c after : Cursor} {fault : Fault}

theorem underflow (inside : Inside data c) {requested : Nat} (short : c.remaining < requested) :
    (Fault.underflow requested c.remaining c.position).TrueOf schema limit data :=
  ⟨inside.position_add_remaining, short⟩

theorem byte_fault (inside : Inside data c) (run : byte c = .error fault after) :
    fault.TrueOf schema limit data := by
  obtain ⟨position, _ | ⟨first, rest⟩⟩ := c
  · cases run
    exact inside.underflow Nat.zero_lt_one
  · cases run

theorem bytes_fault (inside : Inside data c) {count : Nat} (run : bytes count c = .error fault after) :
    fault.TrueOf schema limit data := by
  obtain ⟨short, rfl, -⟩ := bytes_eq_error.1 run
  exact inside.underflow short

theorem varint_fault (inside : Inside data c) (run : varint c = .error fault after) :
    fault.TrueOf schema limit data := by
  have left := inside.position_add_remaining
  obtain ⟨marked, -, ⟨enough, rfl⟩ | ⟨-, rfl⟩⟩ := Varint.marked_of_varint run
  · have ten : 10 ≤ c.remaining := enough
    refine ⟨by omega, fun byte member => ?_⟩
    rw [inside.extract_eq] at member
    exact UInt8.not_lt.1 (marked byte member)
  · exact ⟨left, Nat.zero_lt_one⟩

theorem long_fault (inside : Inside data c) (run : long c = .error fault after) :
    fault.TrueOf schema limit data := by
  rcases Run.bind_eq_error.1 run with failed | ⟨u, middle, -, failed⟩
  · exact inside.varint_fault failed
  · cases failed

theorem zigzag_of_long (inside : Inside data c) {value : Int64} (run : long c = .ok value after) :
    ZigzagAt data c.position after.position value.toInt := by
  obtain ⟨u, middle, read, rest⟩ := Run.bind_eq_ok.1 run
  obtain ⟨rfl, rfl⟩ := Run.pure_eq_ok.1 rest
  obtain ⟨taken, spells, front, there⟩ := Varint.spells_of_varint read
  refine ⟨u, ?_, rfl⟩
  rwa [there, inside.extract_taken front]

theorem length_fault (inside : Inside data c) (run : length c = .error fault after) :
    fault.TrueOf schema limit data := by
  rw [length_eq] at run
  split at run
  · next value _ read =>
    split at run
    · next negative =>
      cases run
      exact ⟨negative, _, inside.zigzag_of_long read⟩
    · cases run
  · next failed =>
    cases run
    exact inside.long_fault failed

/-- No length is lost between the signed number on the wire and the natural one. -/
theorem zigzag_of_length (inside : Inside data c) {size : Nat} (run : length c = .ok size after) :
    ZigzagAt data c.position after.position size := by
  rw [length_eq] at run
  split at run
  · next value _ read =>
    split at run
    · cases run
    · next natural =>
      cases run
      have nonneg : 0 ≤ value.toInt := by
        rw [Int64.lt_iff_toInt_lt] at natural
        exact Int.not_lt.1 natural
      rw [Int.toNat_of_nonneg nonneg]
      exact inside.zigzag_of_long read
  · cases run

theorem count_fault (inside : Inside data c) (run : count limit c = .error fault after) :
    fault.TrueOf schema limit data := by
  rw [count_eq] at run
  split at run
  · next read =>
    split at run
    · next exceeds =>
      cases run
      exact ⟨rfl, exceeds, _, inside.zigzag_of_length read⟩
    · cases run
  · next failed =>
    cases run
    exact inside.length_fault failed

theorem string_fault (inside : Inside data c) (run : string c = .error fault after) :
    fault.TrueOf schema limit data := by
  rw [string_eq] at run
  split at run
  · next size middle counted =>
    have insideToo := inside.after Composed.length.takes counted
    split at run
    · next text _ read =>
      split at run
      · cases run
      · next defect wrong =>
        cases run
        obtain ⟨enough, rfl, -⟩ := bytes_eq_ok.1 read
        have left := insideToo.position_add_remaining
        refine ⟨c.position, size, inside.zigzag_of_length counted, by omega, fun text same => ?_⟩
        rw [insideToo.extract_eq] at same
        rw [← same, Utf8.decode_encode] at wrong
        cases wrong
    · next failed =>
      cases run
      exact insideToo.bytes_fault failed
  · next failed =>
    cases run
    exact inside.length_fault failed

end Cursor.Inside

/-- Induction on the items: each starts inside the payload, where the one before it stopped. -/
theorem Assembled.fault_trueOf {α : Type} {schema : Schema} {limit : Nat} {refused : Fault → Prop} {read : Read α}
    (assembled : Assembled limit refused read) {data : Bytes}
    (allowed : ∀ fault, refused fault → fault.TrueOf schema limit data) {c after : Cursor} {fault : Fault}
    (inside : Cursor.Inside data c) (run : read c = .error fault after) : fault.TrueOf schema limit data := by
  induction assembled generalizing c after fault with
  | pure a => cases run
  | refuse reason =>
    cases run
    exact allowed _ reason
  | byte => exact inside.byte_fault run
  | bytes count => exact inside.bytes_fault run
  | varint => exact inside.varint_fault run
  | length => exact inside.length_fault run
  | count => exact inside.count_fault run
  | string => exact inside.string_fault run
  | bind start goesOn first next =>
    rcases Run.bind_eq_error.1 run with failed | ⟨a, middle, begun, failed⟩
    · exact first inside failed
    · exact next a (inside.after start.composed.takes begun) failed

namespace Message

theorem readBody_fault {schema : Schema} {limit : Nat} {type : String} {data : Bytes} {c after : Cursor} {fault : Fault}
    (inside : Cursor.Inside data c) (run : readBody schema limit type c = .error fault after) :
    fault.TrueOf schema limit data :=
  (readBody_assembled schema limit type).fault_trueOf (fun _ refuses => refuses.trueOf limit data) inside run

theorem peekVersion_inside {data : Bytes} {version : String} {offset : Nat}
    (peeked : peekVersion data = .ok (version, offset)) : Cursor.Inside data ((Cursor.start data).advance offset) :=
  (Cursor.Inside.start data).after Composed.string.takes (peekVersion_eq_ok peeked).1

theorem decode_undefined {schema : Schema} {type : String} (unknown : schema.get? type = none) (config : Config)
    (data : Bytes) : decode schema config type data = .error (.typeNotFound type) := by
  have stopped : read schema config.maxCollection type (.start data) = .error (.typeNotFound type) (.start data) := by
    refine Run.bind_eq_error.2 (.inl ?_)
    rw [Schema.require, unknown]
    rfl
  rw [decode, stopped]

/-- Every fault that decoding gives is true, for a body anywhere in a payload and for a whole payload.
Only the latter can also fail by its tag, which is then read and is not that of the type. -/
theorem faults_trueOf (schema : Schema) (config : Config) (type : String) (data : Bytes) :
    (∀ c fault after, Cursor.Inside data c → readBody schema config.maxCollection type c = .error fault after →
      fault.TrueOf schema config.maxCollection data) ∧
    ∀ fault, decode schema config type data = .error fault →
      fault.TrueOf schema config.maxCollection data ∨
      ∃ d actual offset, schema.get? type = some d ∧ peekVersion data = .ok (actual, offset) ∧
        actual ≠ d.version ∧ fault = .versionMismatch d.version actual := by
  refine ⟨fun c fault after inside run => readBody_fault inside run, fun fault failed => ?_⟩
  cases found : schema.get? type with
  | none =>
    rw [decode_undefined found] at failed
    cases failed
    exact .inl found
  | some d =>
    have gated := decode_gated found config
    cases peeked : peekVersion data with
    | error reason =>
      rw [gated.unreadable data reason peeked] at failed
      cases failed
      obtain ⟨after, stopped⟩ := peekVersion_eq_error peeked
      exact .inl ((Cursor.Inside.start data).string_fault stopped)
    | ok tag =>
      obtain ⟨actual, offset⟩ := tag
      by_cases same : actual = d.version
      · subst same
        rw [gated.admitted data offset peeked] at failed
        split at failed
        · cases failed
        · next stopped =>
          cases failed
          exact .inl (readBody_fault (peekVersion_inside peeked) stopped)
      · rw [(gated.refused data actual offset peeked same).1] at failed
        cases failed
        exact .inr ⟨d, actual, offset, rfl, rfl, same, rfl⟩

/-- A child of a node has one child more than allowed; and a body ends after its first field. -/
theorem faults_trueOf_child :
    decode node ⟨0, 1⟩ "Node" [4, 110, 49, 2, 2, 2, 4] = .error (.lengthExceeded 2 1 6) ∧
    Fault.TrueOf node 1 [4, 110, 49, 2, 2, 2, 4] (.lengthExceeded 2 1 6) ∧
    readBody node 1 "Node" ⟨2, [2]⟩ = .error (.underflow 1 0 3) ⟨3, []⟩ ∧
    Fault.TrueOf node 1 [9, 9, 2] (.underflow 1 0 3) := by
  have exceeded : decode node ⟨0, 1⟩ "Node" [4, 110, 49, 2, 2, 2, 4] = .error (.lengthExceeded 2 1 6) := rfl
  have short : readBody node 1 "Node" ⟨2, [2]⟩ = .error (.underflow 1 0 3) ⟨3, []⟩ := rfl
  refine ⟨exceeded, ?_, short, ?_⟩
  · rcases (faults_trueOf node ⟨0, 1⟩ "Node" _).2 _ exceeded with holds | ⟨_, _, _, -, -, -, mismatch⟩
    · exact holds
    · cases mismatch
  · exact (faults_trueOf node ⟨0, 1⟩ "Node" [9, 9, 2]).1 ⟨2, [2]⟩ _ _ ⟨by decide, rfl⟩ short

end Message

end Wirepack
