import Mathlib.Algebra.Group.Nat.Defs
import Wirepack.Proofs.TypedReading

/-!
# What the decoder accepts

A payload may spell a number with more bytes than it needs, or with bits that are dropped. Whatever
it spells, a value that is read has its declared type, its lengths can be written again, and unless
it holds floats its own bytes are no more than those that were taken for it.

`Yields` is the form in which this is said of a read: every value it gives satisfies a condition,
together with the number of bytes taken.
-/

namespace Wirepack
set_option autoImplicit false

/-- The shortest form of a number that a varint of `size` bytes can hold is no longer. -/
theorem Varint.length_groups_le {value : UInt64} {size : Nat} (more : Nat) (some : 0 < size)
    (bound : value.toNat < 2 ^ (7 * size)) : (groups more value).length ≤ size := by
  induction more generalizing value size with
  | zero => exact some
  | succ more ih =>
    rw [groups]
    split
    · exact some
    · next large =>
      have wide : 128 ≤ value.toNat := by
        rw [UInt64.lt_iff_toNat_lt] at large
        simpa using large
      obtain ⟨size, rfl⟩ : ∃ n, size = n + 1 := ⟨size - 1, by omega⟩
      have whole : 2 ^ (7 * (size + 1)) = 2 ^ (7 * size) * 128 := by
        rw [Nat.mul_succ, Nat.pow_add]
      rw [List.length_cons, Nat.add_le_add_iff_right]
      apply ih
      · rcases Nat.eq_zero_or_pos size with rfl | above
        · simp at bound
          omega
        · exact above
      · rw [toNat_shiftRight_seven]
        omega

theorem Utf8.encode_of_decode {data : Bytes} {text : String} (decoded : Utf8.decode data = .ok text) :
    Utf8.encode text = data := by
  unfold Utf8.decode Utf8.decode? String.fromUTF8? at decoded
  split at decoded
  · next found =>
    cases decoded
    split at found
    · cases found
      simp [Utf8.encode, String.fromUTF8]
    · cases found
  · cases decoded

/-- Every value that the read gives satisfies `post`, with the number of bytes taken for it. -/
def Yields {α : Type} (read : Read α) (post : α → Nat → Prop) : Prop :=
  ∀ (c after : Cursor) (a : α), read c = .ok a after → ∃ taken, after.position = c.position + taken ∧ post a taken

namespace Yields

section Sequences

variable {α β : Type} {P : α → Nat → Prop} {Q : β → Nat → Prop}

theorem pure {a : α} (holds : P a 0) : Yields (pure a) P := by
  intro c after b run
  obtain ⟨rfl, rfl⟩ := Run.pure_eq_ok.1 run
  exact ⟨0, rfl, holds⟩

theorem throw (fault : Fault) : Yields (throw fault) P := by
  intro c after a run
  cases run

theorem bind {first : Read α} {next : α → Read β} (start : Yields first P)
    (goesOn : ∀ a n, P a n → Yields (next a) fun b m => Q b (n + m)) : Yields (first >>= next) Q := by
  intro c after b run
  obtain ⟨a, middle, begun, rest⟩ := Run.bind_eq_ok.1 run
  obtain ⟨n, there, holds⟩ := start c middle a begun
  obtain ⟨m, further, result⟩ := goesOn a n holds middle after b rest
  exact ⟨n + m, by omega, result⟩

theorem map {read : Read α} (f : α → β) (yields : Yields read P) (keeps : ∀ a n, P a n → Q (f a) n) :
    Yields (do return f (← read)) Q :=
  yields.bind fun a n holds => .pure (keeps a n holds)

/-- What holds of no values, and still holds with one more in front, holds of all that are read. -/
theorem times {read : Read α} {R : List α → Nat → Prop} (yields : Yields read P) (none : R [] 0)
    (more : ∀ a n xs m, P a n → R xs m → R (a :: xs) (n + m)) (count : Nat) :
    Yields (Cursor.times read count) fun xs n => xs.length = count ∧ R xs n := by
  induction count with
  | zero => exact .pure ⟨rfl, none⟩
  | succ count ih =>
    refine yields.bind fun a n holds => ih.map (a :: ·) ?_
    rintro xs m ⟨rfl, others⟩
    exact ⟨rfl, more a n xs m holds others⟩

/-- The same for the fields of a message, which are read in declared order. -/
theorem fields {read : FieldType → Read Value} {P : FieldType → Value → Nat → Prop}
    {R : List Field → Record → Nat → Prop} (each : ∀ type, Yields (read type) (P type)) (none : R [] [] 0)
    (more : ∀ f v n declared record m, P f.type v n → R declared record m →
      R (f :: declared) ((f.name, v) :: record) (n + m)) (declared : List Field) :
    Yields (readNamed read declared) (R declared) := by
  induction declared with
  | nil => exact .pure none
  | cons f declared ih =>
    rw [readNamed, List.mapM_cons]
    have first : Yields (do return (f.name, ← read f.type)) fun entry n => entry.1 = f.name ∧ P f.type entry.2 n :=
      (each f.type).map (f.name, ·) fun v n holds => ⟨rfl, holds⟩
    refine first.bind ?_
    rintro ⟨name, v⟩ n ⟨rfl, holds⟩
    exact ih.map ((f.name, v) :: ·) fun record m others => more f v n declared record m holds others

end Sequences

theorem here : Yields Cursor.here fun _ n => n = 0 := by
  intro c after position run
  cases run
  exact ⟨0, rfl, rfl⟩

theorem byte : Yields Cursor.byte fun _ n => n = 1 := by
  rintro ⟨position, _ | ⟨first, rest⟩⟩ after b run
  · cases run
  · cases run
    exact ⟨1, rfl, rfl⟩

theorem bytes (count : Nat) : Yields (Cursor.bytes count) fun data n => data.length = count ∧ n = count := by
  intro c after data run
  by_cases inside : count ≤ c.remaining
  · rw [Cursor.bytes, if_pos inside] at run
    cases run
    exact ⟨count, rfl, List.length_take_of_le inside, rfl⟩
  · rw [Cursor.bytes, if_neg inside] at run
    cases run

/-- Each byte adds seven bits to what the number can hold. Induction on the bytes that may follow. -/
theorem varintGroups (start left : Nat) :
    Yields (Cursor.varintGroups start left) fun value n => 0 < n ∧ value.toNat < 2 ^ (7 * n) := by
  induction left with
  | zero => exact .throw _
  | succ left ih =>
    refine byte.bind ?_
    rintro group _ rfl
    split
    · next small =>
      refine .pure ⟨Nat.one_pos, ?_⟩
      rw [UInt8.lt_iff_toNat_lt] at small
      simpa using small
    · refine ih.map (fun high : UInt64 => (group &&& 0x7F).toUInt64 ||| (high <<< 7)) ?_
      rintro high n ⟨-, bound⟩
      have whole : 2 ^ (7 * (1 + n)) = 128 * 2 ^ (7 * n) := by
        rw [Nat.mul_add, Nat.pow_add]
      have low : (group &&& 0x7F).toUInt64.toNat < 2 ^ (7 * (1 + n)) := by
        have seven : (group &&& 0x7F).toNat ≤ 127 := by
          rw [UInt8.toNat_and]
          exact Nat.and_le_right
        have positive := Nat.two_pow_pos (7 * n)
        rw [UInt8.toNat_toUInt64]
        omega
      have upper : (high <<< 7).toNat < 2 ^ (7 * (1 + n)) := by
        have shifted : (high <<< 7).toNat = high.toNat * 128 % 2 ^ 64 := by
          simp [UInt64.toNat_shiftLeft, Nat.shiftLeft_eq]
        have less := Nat.mod_le (high.toNat * 128) (2 ^ 64)
        omega
      refine ⟨by omega, ?_⟩
      rw [UInt64.toNat_or]
      exact Nat.or_lt_two_pow low upper

theorem varint : Yields Cursor.varint fun value n => 0 < n ∧ value.toNat < 2 ^ (7 * n) := by
  refine here.bind ?_
  rintro position _ rfl
  simpa using varintGroups position Varint.maxSize

/-- Only the low half of a number counts, so its shortest form is that of a number no larger. -/
theorem int : Yields Cursor.int fun v n => (Written.int v).length ≤ n := by
  refine varint.map (fun u : UInt64 => Zigzag.decode32 u.toUInt32) ?_
  rintro u n ⟨some, bound⟩
  have low : u.toUInt32.toUInt64.toNat ≤ u.toNat := by
    simpa using Nat.mod_le u.toNat 4294967296
  rw [Written.int, Zigzag.encode32_decode32]
  exact Varint.length_groups_le _ some (Nat.lt_of_le_of_lt low bound)

theorem long : Yields Cursor.long fun v n => (Written.long v).length ≤ n := by
  refine varint.map Zigzag.decode64 ?_
  rintro u n ⟨some, bound⟩
  rw [Written.long, Zigzag.encode64_decode64]
  exact Varint.length_groups_le _ some bound

/-- A float that is written again need not be the number that was read, so nothing is said of its bytes. -/
theorem float : Yields Cursor.float fun _ _ => True :=
  long.map FixedPoint.dequantize32 fun _ _ _ => trivial

theorem double : Yields Cursor.double fun _ _ => True :=
  long.map FixedPoint.dequantize64 fun _ _ _ => trivial

theorem bool : Yields Cursor.bool fun _ n => n = 1 :=
  byte.map (· != 0) fun _ _ one => one

theorem length : Yields Cursor.length fun count n =>
    count < Written.lengthBound ∧ (Written.length count).length ≤ n := by
  refine here.bind ?_
  rintro position _ rfl
  refine long.bind fun value n short => ?_
  split
  · exact .throw _
  · next natural =>
    have nonneg : 0 ≤ value.toInt := by
      rw [Int64.lt_iff_toInt_lt] at natural
      simpa using natural
    have high := value.toInt_lt
    have same : Int64.ofNat value.toInt.toNat = value := by
      apply Int64.toInt_inj.1
      rw [Int64.toInt_ofNat_of_lt (by omega)]
      omega
    refine .pure ⟨?_, ?_⟩
    · rw [Written.lengthBound]
      omega
    · rw [Written.length, same]
      omega

theorem count (limit : Nat) : Yields (Cursor.count limit) fun count n =>
    count ≤ limit ∧ count < Written.lengthBound ∧ (Written.length count).length ≤ n := by
  refine here.bind ?_
  rintro position _ rfl
  refine length.bind ?_
  rintro count n ⟨small, short⟩
  split
  · exact .throw _
  · next allowed => exact .pure ⟨Nat.not_lt.1 allowed, small, by omega⟩

theorem string : Yields Cursor.string fun text n =>
    (Utf8.encode text).length < Written.lengthBound ∧ (Written.string text).length ≤ n := by
  refine length.bind ?_
  rintro size n ⟨small, short⟩
  refine here.bind ?_
  rintro position _ rfl
  refine (bytes size).bind ?_
  rintro data taken ⟨sized, all⟩
  split
  · next text decoded =>
    have same : (Utf8.encode text).length = size := by
      rw [Utf8.encode_of_decode decoded, sized]
    refine .pure ⟨same ▸ small, ?_⟩
    rw [Written.string, List.length_append, same]
    omega
  · exact .throw _

theorem version (tag : String) : Yields (Cursor.version tag) fun _ n =>
    (Utf8.encode tag).length < Written.lengthBound ∧ (Written.string tag).length ≤ n := by
  refine string.bind fun actual n known => ?_
  split
  · exact .throw _
  · next same =>
    obtain rfl : actual = tag := Decidable.not_not.1 same
    exact .pure known

end Yields

/-- No float stands in the value. -/
def Value.Floatless : Value → Prop
  | .float _ | .double _ => False
  | .array items => ∀ v ∈ items, v.Floatless
  | .record fields => ∀ field ∈ fields, field.2.Floatless
  | _ => True
decreasing_by
  · decreasing_tactic
  · exact sizeOf_snd_lt_record ‹_›

/-- A value as a read by its type gives it, from `taken` bytes. -/
structure Value.Accepted (lookup : String → Option Definition) (limit levels : Nat) (type : FieldType) (v : Value)
    (taken : Nat) : Prop where
  typed : v.Typed lookup type
  within : v.Within levels
  fits : v.Fits limit
  shorter : v.Floatless → v.wire.length ≤ taken

/-- The fields of a message as a read gives them, in declared order. -/
structure Record.Accepted (lookup : String → Option Definition) (limit levels : Nat) (declared : List Field)
    (record : Record) (taken : Nat) : Prop where
  named : record.map Prod.fst = declared.map Field.name
  typed : ∀ pair ∈ declared.zip record, pair.2.2.Typed lookup pair.1.type
  within : ∀ field ∈ record, field.2.Within levels
  fits : ∀ field ∈ record, field.2.Fits limit
  shorter : (∀ field ∈ record, field.2.Floatless) → (record.flatMap fun field => field.2.wire).length ≤ taken

namespace Yields

variable {lookup : String → Option Definition} {limit levels : Nat}

/-- A scalar that is read by `read` and made a value by `make`. -/
theorem scalar {α : Type} {read : Read α} {P : α → Nat → Prop} {type : FieldType} (make : α → Value)
    (yields : Yields read P) (typed : ∀ a, (make a).Typed lookup type) (within : ∀ a, (make a).Within levels)
    (fits : ∀ a n, P a n → (make a).Fits limit)
    (shorter : ∀ a n, P a n → (make a).Floatless → (make a).wire.length ≤ n) :
    Yields (do return make (← read)) (Value.Accepted lookup limit levels type) :=
  yields.map make fun a n holds => ⟨typed a, within a, fits a n holds, shorter a n holds⟩

theorem items {read : Read Value} {item : FieldType} (each : Yields read (Value.Accepted lookup limit levels item))
    (count : Nat) : Yields (Cursor.times read count) fun items n => items.length = count ∧
      (∀ v ∈ items, v.Typed lookup item ∧ v.Within levels ∧ v.Fits limit) ∧
      ((∀ v ∈ items, v.Floatless) → (items.flatMap Value.wire).length ≤ n) := by
  refine each.times ⟨by simp, by simp⟩ ?_ count
  intro v n items m accepted others
  rw [List.forall_mem_cons, List.forall_mem_cons, List.flatMap_cons, List.length_append]
  refine ⟨⟨⟨accepted.typed, accepted.within, accepted.fits⟩, others.1⟩, ?_⟩
  rintro ⟨first, rest⟩
  exact Nat.add_le_add (accepted.shorter first) (others.2 rest)

theorem record {read : FieldType → Read Value}
    (each : ∀ type, Yields (read type) (Value.Accepted lookup limit levels type)) (declared : List Field) :
    Yields (readNamed read declared) (Record.Accepted lookup limit levels declared) := by
  refine fields each ⟨rfl, by simp, by simp, by simp, by simp⟩ ?_ declared
  intro f v n declared record m accepted others
  constructor
  · rw [List.map_cons, List.map_cons, others.named]
  · rw [List.zip_cons_cons, List.forall_mem_cons]
    exact ⟨accepted.typed, others.typed⟩
  · rw [List.forall_mem_cons]
    exact ⟨accepted.within, others.within⟩
  · rw [List.forall_mem_cons]
    exact ⟨accepted.fits, others.fits⟩
  · rw [List.forall_mem_cons, List.flatMap_cons, List.length_append]
    rintro ⟨first, rest⟩
    exact Nat.add_le_add (accepted.shorter first) (others.shorter rest)

end Yields

/-- The decoder gives values of the types it reads, whatever the bytes. Induction on the levels left. -/
theorem Message.readValue_yields {schema : Schema} (distinct : ∀ d ∈ schema.messages, (d.fields.map Field.name).Nodup)
    (limit levels : Nat) (type : FieldType) :
    Yields (Message.readValue schema limit levels type) (Value.Accepted schema.get? limit levels type) := by
  induction levels using Nat.strongRecOn generalizing type with
  | ind levels ih =>
    cases type with
    | int =>
      rw [readValue]
      exact .scalar Value.int Yields.int .int (by simp [Value.Within]) (by simp [Value.Fits])
        (fun v n short _ => by simpa [Value.wire] using short)
    | long =>
      rw [readValue]
      exact .scalar Value.long Yields.long .long (by simp [Value.Within]) (by simp [Value.Fits])
        (fun v n short _ => by simpa [Value.wire] using short)
    | float =>
      rw [readValue]
      exact .scalar Value.float Yields.float .float (by simp [Value.Within]) (by simp [Value.Fits])
        (by simp [Value.Floatless])
    | double =>
      rw [readValue]
      exact .scalar Value.double Yields.double .double (by simp [Value.Within]) (by simp [Value.Fits])
        (by simp [Value.Floatless])
    | bool =>
      rw [readValue]
      exact .scalar Value.bool Yields.bool .bool (by simp [Value.Within]) (by simp [Value.Fits]) (by simp [Value.wire])
    | string =>
      rw [readValue]
      exact .scalar Value.string Yields.string .string (by simp [Value.Within])
        (fun text n known => by simpa [Value.Fits] using known.1)
        (fun text n known _ => by simpa [Value.wire] using known.2)
    | repeated item =>
      obtain _ | below := levels
      · exact .throw _
      · rw [readValue]
        refine (Yields.count limit).bind ?_
        rintro count n ⟨allowed, small, short⟩
        refine (Yields.items (ih below (Nat.lt_succ_self below) item) count).map Value.array ?_
        rintro items m ⟨rfl, all, shorter⟩
        constructor
        · exact .array fun v member => (all v member).1
        · exact fun v member => (all v member).2.1
        · rw [Value.Fits]
          exact ⟨allowed, small, fun v member => (all v member).2.2⟩
        · intro floatless
          rw [Value.Floatless] at floatless
          rw [Value.wire, List.length_append]
          exact Nat.add_le_add short (shorter floatless)
    | message name =>
      cases found : schema.get? name with
      | none =>
        simp only [readValue, Schema.require, found]
        exact .throw _
      | some d =>
        obtain _ | below := levels
        · simp only [readValue, Schema.require, found]
          exact .throw _
        · rw [(readValue_follows distinct).message below name d found]
          have fields := Yields.record (ih below (Nat.lt_succ_self below)) d.fields
          refine fields.map Value.record fun record n accepted => ?_
          constructor
          · exact .record found accepted.named accepted.typed
          · exact accepted.within
          · rw [Value.Fits]
            exact accepted.fits
          · intro floatless
            rw [Value.Floatless] at floatless
            rw [Value.wire]
            exact accepted.shorter floatless

end Wirepack
