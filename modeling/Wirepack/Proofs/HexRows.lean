import Mathlib.Data.List.TakeDrop
import Wirepack.Proofs.CommandEffects
import Wirepack.Proofs.TrueFaults

/-!
# Reading a hex dump

A dump is read back row by row: the digits up to the first space spell the offset, and each group of two
digits behind it is a byte. What is read is what was dumped, whatever the number of bytes and the offset
of the first, and the offsets are right as long as they have 64 bits. Inspecting a payload dumps its body up
to a limit and counts the bytes that are left out.
-/

namespace Wirepack
set_option autoImplicit false

namespace Hexdump

open Bytes (hexDigit hexPair)

/-- The value of a lowercase hexadecimal digit. -/
def digit? (c : Char) : Option Nat :=
  ['0', '1', '2', '3', '4', '5', '6', '7', '8', '9', 'a', 'b', 'c', 'd', 'e', 'f'].idxOf? c

/-- The number that digits spell, of which the first is the highest. -/
def number? (digits : List Char) : Option Nat :=
  digits.foldlM (fun sofar c => (digit? c).map (16 * sofar + ·)) 0

/-- The bytes of groups of two digits, each behind a space. -/
def groups? : List Char → Option Bytes
  | [] => some []
  | ' ' :: high :: low :: rest => do
    let high ← digit? high
    let low ← digit? low
    let bytes ← groups? rest
    return UInt8.ofNat (16 * high + low) :: bytes
  | _ => none

/-- The bytes that a row shows behind its offset and a space. -/
def bytes? (row : String) : Option Bytes := groups? ((row.toList.dropWhile (· ≠ ' ')).drop 1)

/-- The row begins with digits that spell the offset and two spaces. There are eight digits at least, and
no more zeros in front than that takes. -/
def HeadedBy (offset : Nat) (row : String) : Prop :=
  ∃ digits, digits ++ [' ', ' '] <+: row.toList ∧ number? digits = some offset ∧
    8 ≤ digits.length ∧ (8 < digits.length → digits.head? ≠ some '0')

/-- The rows show the data, sixteen bytes a row. -/
structure Shows (data : Bytes) (rows : List String) : Prop where
  count : rows.length = (data.length + 15) / 16
  shown : ∃ chunks, rows.mapM bytes? = some chunks ∧ chunks.flatten = data ∧
    ∀ chunk ∈ chunks.dropLast, chunk.length = 16

/-- Each row begins with its offset, of which the first is `base`. -/
def Headed (base : Nat) (rows : List String) : Prop :=
  ∀ i (inside : i < rows.length), HeadedBy (base + 16 * i) rows[i]

section Digits

theorem digit?_digitChar : ∀ value < 16, digit? (Nat.digitChar value) = some value := by decide

theorem digit?_hexDigit (n : Nat) : digit? (hexDigit n) = some (n % 16) :=
  digit?_digitChar _ (Nat.mod_lt n (by decide))

theorem number?_append (digits : List Char) (c : Char) :
    number? (digits ++ [c]) = (number? digits).bind fun sofar => (digit? c).map (16 * sofar + ·) := by
  rw [number?, List.foldlM_append]
  simp [number?]

theorem number?_toDigits (n : Nat) : number? (Nat.toDigits 16 n) = some n := by
  induction n using Nat.strongRecOn with
  | ind n ih =>
    by_cases small : n < 16
    · rw [Nat.toDigits_of_lt_base small]
      simp [number?, digit?_digitChar n small]
    · have last := digit?_digitChar (n % 16) (Nat.mod_lt n (by decide))
      rw [Nat.toDigits_of_base_le (by decide) (by omega), number?_append, ih (n / 16) (by omega), last]
      simp only [Option.bind_some, Option.map_some, Option.some.injEq]
      omega

theorem number?_zeros (count : Nat) (digits : List Char) :
    number? (List.replicate count '0' ++ digits) = number? digits := by
  induction count with
  | zero => rfl
  | succ count ih =>
    rw [← ih]
    rfl

theorem head?_toDigits {n : Nat} (positive : 0 < n) : (Nat.toDigits 16 n).head? ≠ some '0' := by
  induction n using Nat.strongRecOn with
  | ind n ih =>
    by_cases small : n < 16
    · rw [Nat.toDigits_of_lt_base small]
      have nonzero : ∀ value < 16, 0 < value → Nat.digitChar value ≠ '0' := by decide
      simpa using nonzero n small positive
    · rw [Nat.toDigits_of_base_le (by decide) (by omega), List.head?_append_of_ne_nil _ Nat.toDigits_ne_nil]
      exact ih (n / 16) (by omega) (by omega)

/-- A space is no digit. -/
theorem space_not_mem {digits : List Char} {start n : Nat}
    (spelled : digits.foldlM (fun sofar c => (digit? c).map (16 * sofar + ·)) start = some n) : ' ' ∉ digits := by
  induction digits generalizing start with
  | nil => simp
  | cons c digits ih =>
    rw [List.foldlM_cons] at spelled
    obtain ⟨next, first, others⟩ := Option.bind_eq_some_iff.1 spelled
    rw [List.mem_cons, not_or]
    refine ⟨?_, ih others⟩
    rintro rfl
    cases first

theorem number?_offsetText (offset : UInt64) : number? (offsetText offset) = some offset.toNat :=
  (number?_zeros _ _).trans (number?_toDigits offset.toNat)

theorem length_offsetText (offset : UInt64) :
    (offsetText offset).length = max 8 (Nat.toDigits 16 offset.toNat).length := by
  rw [offsetText, List.length_append, List.length_replicate]
  omega

/-- An offset of more than eight digits has no zeros in front. -/
theorem head?_offsetText {offset : UInt64} (long : 8 < (offsetText offset).length) :
    (offsetText offset).head? ≠ some '0' := by
  rw [length_offsetText] at long
  have many : 8 < (Nat.toDigits 16 offset.toNat).length := by omega
  have positive : 0 < offset.toNat := by
    apply Nat.pos_of_ne_zero
    intro zero
    rw [zero] at many
    exact absurd many (by decide)
  rw [offsetText, Nat.sub_eq_zero_of_le (Nat.le_of_lt many)]
  exact head?_toDigits positive

end Digits

section Pairs

theorem drop_hexPairs (data : Bytes) (j : Nat) :
    (data.flatMap hexPair).drop (j * 2) = (data.drop j).flatMap hexPair := by
  induction data generalizing j with
  | nil => simp
  | cons byte data ih =>
    cases j with
    | zero => simp
    | succ j =>
      rw [List.drop_succ_cons, ← ih, Nat.succ_mul]
      rfl

/-- The two digits at each index are those of the byte there. -/
theorem pairs_eq (chunk : Bytes) : pairs chunk = chunk.map hexPair := by
  apply List.ext_getElem
  · rw [pairs, List.length_ofFn, List.length_map]
  · intro j _ inside
    rw [List.length_map] at inside
    simp only [pairs, List.getElem_ofFn, List.getElem_map]
    rw [slice, List.extract_eq_take_drop, Nat.add_sub_cancel_left, Bytes.toHex, String.toList_ofList, drop_hexPairs,
      List.drop_eq_getElem_cons inside, List.flatMap_cons]
    rfl

/-- With one more space in front, the space between two groups belongs to the second. -/
theorem space_intercalate {chunk : Bytes} (some : chunk ≠ []) :
    ' ' :: [' '].intercalate (chunk.map hexPair) = chunk.flatMap fun byte => ' ' :: hexPair byte := by
  induction chunk with
  | nil => exact absurd rfl some
  | cons byte chunk ih =>
    cases chunk with
    | nil => simp
    | cons next chunk =>
      rw [List.map_cons, List.map_cons, List.intercalate_cons_cons, List.flatMap_cons, ← ih (List.cons_ne_nil _ _)]
      simp

theorem groups?_pairs (data : Bytes) : groups? (data.flatMap fun byte => ' ' :: hexPair byte) = some data := by
  induction data with
  | nil => rfl
  | cons byte data ih =>
    have bound := byte.toNat_lt
    have whole : 16 * (byte.toNat / 16 % 16) + byte.toNat % 16 = byte.toNat := by omega
    rw [List.flatMap_cons, hexPair, List.cons_append, List.cons_append, List.cons_append, List.nil_append, groups?,
      digit?_hexDigit, digit?_hexDigit, ih]
    show some (UInt8.ofNat (16 * (byte.toNat / 16 % 16) + byte.toNat % 16) :: data) = some (byte :: data)
    rw [whole, UInt8.ofNat_toNat]

end Pairs

section Rows

theorem bytes?_row (offset : UInt64) {chunk : Bytes} (some : chunk ≠ []) : bytes? (row offset chunk) = .some chunk := by
  -- The first space of a row is the one behind its offset, however many digits that has.
  have digits : ∀ c ∈ offsetText offset, decide (c ≠ ' ') = true := by
    intro c member
    apply decide_eq_true
    rintro rfl
    exact space_not_mem (number?_offsetText offset) member
  rw [bytes?, row, String.toList_ofList, List.append_assoc, List.dropWhile_append_of_pos digits, pairs_eq]
  show groups? (' ' :: [' '].intercalate (chunk.map hexPair)) = .some chunk
  rw [space_intercalate some, groups?_pairs]

theorem headedBy_row (offset : UInt64) (chunk : Bytes) : HeadedBy offset.toNat (row offset chunk) := by
  refine ⟨offsetText offset, ?_, number?_offsetText offset, ?_, head?_offsetText⟩
  · rw [row, String.toList_ofList]
    exact List.prefix_append _ _
  · rw [length_offsetText]
    exact Nat.le_max_left ..

theorem flatten_chunks (data : Bytes) : (chunks data).flatten = data := by
  fun_induction chunks data with
  | case1 => rfl
  | case2 first rest ih => rw [List.flatten_cons, ih, List.cons_append, List.take_append_drop]

theorem ne_nil_of_mem_chunks {data chunk : Bytes} (member : chunk ∈ chunks data) : chunk ≠ [] := by
  fun_induction chunks data with
  | case1 => cases member
  | case2 first rest ih =>
    rcases List.mem_cons.1 member with rfl | later
    · exact List.cons_ne_nil _ _
    · exact ih later

theorem length_chunks (data : Bytes) : (chunks data).length = (data.length + 15) / 16 := by
  fun_induction chunks data with
  | case1 => rfl
  | case2 first rest ih =>
    rw [List.length_cons, List.length_cons, ih, List.length_drop, width]
    omega

/-- Only the last chunk may be short: another follows only if there was more than this one takes. -/
theorem length_of_mem_dropLast {data chunk : Bytes} (member : chunk ∈ (chunks data).dropLast) : chunk.length = 16 := by
  fun_induction chunks data with
  | case1 => cases member
  | case2 first rest ih =>
    by_cases last : chunks (rest.drop (width - 1)) = []
    · rw [last] at member
      cases member
    · rw [List.dropLast_cons_of_ne_nil last] at member
      rcases List.mem_cons.1 member with rfl | later
      · have sixteen : width = 16 := rfl
        have positive := List.length_pos_of_ne_nil last
        rw [length_chunks, List.length_drop] at positive
        rw [List.length_cons, List.length_take]
        omega
      · exact ih later

theorem mapM_bytes?_rows {chunks : List Bytes} (some : ∀ chunk ∈ chunks, chunk ≠ []) (offset : Nat → UInt64)
    (start : Nat) : ((chunks.zipIdx start).map fun (chunk, i) => row (offset i) chunk).mapM bytes? = .some chunks := by
  induction chunks generalizing start with
  | nil => rfl
  | cons chunk chunks ih =>
    obtain ⟨first, others⟩ := List.forall_mem_cons.1 some
    rw [List.zipIdx_cons, List.map_cons, List.mapM_cons, ih others, bytes?_row (offset start) first]
    rfl

theorem length_rows (base : UInt64) (data : Bytes) : (rows base data).length = (data.length + 15) / 16 := by
  rw [rows, List.length_map, List.length_zipIdx, length_chunks]

/-- Every dump is read back, also where its offsets wrap around. -/
theorem shows_rows (base : UInt64) (data : Bytes) : Shows data (rows base data) where
  count := length_rows base data
  shown := ⟨chunks data, mapM_bytes?_rows (fun _ => ne_nil_of_mem_chunks) (fun i => base + UInt64.ofNat (i * width)) 0,
    flatten_chunks data, fun _ => length_of_mem_dropLast⟩

theorem toNat_offset {base : UInt64} {i : Nat} (fits : base.toNat + 16 * i < UInt64.size) :
    (base + UInt64.ofNat (i * width)).toNat = base.toNat + 16 * i := by
  have size : UInt64.size = 2 ^ 64 := rfl
  rw [UInt64.toNat_add, UInt64.toNat_ofNat', width]
  omega

/-- The offsets are right if the last of them has 64 bits. -/
theorem headed_rows {base : UInt64} {data : Bytes}
    (fits : base.toNat + 16 * ((rows base data).length - 1) < UInt64.size) : Headed base.toNat (rows base data) := by
  intro i inside
  have here : base.toNat + 16 * i < UInt64.size := by omega
  rw [← toNat_offset here]
  simp only [rows, List.getElem_map, List.getElem_zipIdx, Nat.zero_add]
  exact headedBy_row _ _

-- Offsets have as many digits as they need, and wrap around past 64 bits.
example : row 0x123456789 [0, 0x1F] = "123456789  00 1f" ∧ row 22 [0xA0] = "00000016  a0" ∧
    row (0xFFFFFFFFFFFFFFFF + UInt64.ofNat (1 * width)) [7] = "0000000f  07" := by
  decide +kernel

end Rows

end Hexdump

section Inspecting

variable {readers : Readers} {files : Files} {arguments : List String} {verbose : Bool} {c : Command}

theorem stdout_of_ok {text : String} {after : Session} (asked : readers.invocation arguments = .run verbose c)
    (run : Run.command readers.json c ⟨files, []⟩ = .ok text after) :
    (readers.execute files arguments).stdout = text := by
  unfold Readers.execute
  rw [asked]
  simp only [run]

variable {input version : String} {limit offset : Nat} {data : Bytes}

/-- The lines about a payload that come before those of its body. -/
def Run.summary (input version : String) (data : Bytes) (offset : Nat) : List String :=
  ["=== " ++ input ++ " ===", "Version:    " ++ version, "Total size: " ++ toString data.length ++ " bytes",
    "Body:       " ++ toString (data.drop offset).length ++ " bytes at offset " ++ toString offset, ""]

theorem Run.inspect_eq_ok {s : Session} (content : s.files.read input = .ok data)
    (peeked : Message.peekVersion data = .ok (version, offset)) :
    inspect input limit s = .ok (printed (summary input version data offset ++
      bodyLines limit (UInt64.ofNat offset) (data.drop offset))) s := by
  have opened : readFile input s = .ok (.ok data) s := by
    rw [← content]
    rfl
  refine bind_eq_ok.2 ⟨.ok data, s, opened, bind_eq_ok.2 ⟨data, s, rfl, ?_⟩⟩
  rw [peeked]
  rfl

/-- The bytes that are left out are counted where there are any. -/
theorem Run.bodyLines_eq (limit : Nat) (base : UInt64) (body : Bytes) : bodyLines limit base body =
    Hexdump.rows base (body.take limit) ++
      if body.drop limit = [] then [] else ["... " ++ toString (body.drop limit).length ++ " more bytes"] := by
  have hidden : body.length - (body.take limit).length = (body.drop limit).length := by
    rw [List.length_take, List.length_drop]
    omega
  rw [bodyLines, hidden]
  simp only [List.length_eq_zero_iff]

/-- The offset of a tag that can be read is inside the payload. -/
theorem Message.offset_le_of_peekVersion (peeked : peekVersion data = .ok (version, offset)) : offset ≤ data.length := by
  have whole : 0 + offset + ((Cursor.start data).advance offset).remaining = data.length :=
    (peekVersion_inside peeked).position_add_remaining
  omega

/-- The offset of every row of a payload whose length has 64 bits is below that length. -/
theorem Hexdump.headed_body {shown : Bytes} (inside : offset + shown.length ≤ data.length)
    (bounded : data.length < UInt64.size) : Headed offset (rows (UInt64.ofNat offset) shown) := by
  have size : UInt64.size = 2 ^ 64 := rfl
  have kept : (UInt64.ofNat offset).toNat = offset := by
    rw [UInt64.toNat_ofNat']
    omega
  have headed := @headed_rows (UInt64.ofNat offset) shown
  rw [kept, length_rows] at headed
  exact headed (by omega)

end Inspecting

/-- A dump loses nothing: there is a row for every sixteen bytes, each begins with its offset, and the groups
of two digits of all rows give back the data. That is so as long as the offset of the last row has 64 bits,
which it always has in a payload. So inspecting a payload, with whatever limit, shows the bytes of its body
up to the limit and, unless that is all of them, the number of the others. -/
theorem dump_loses_nothing :
    (∀ base data, base.toNat + 16 * ((Hexdump.rows base data).length - 1) < UInt64.size →
      Hexdump.Shows data (Hexdump.rows base data) ∧ Hexdump.Headed base.toNat (Hexdump.rows base data)) ∧
    ∀ (readers : Readers) files arguments verbose input limit data version offset,
      readers.invocation arguments = .run verbose (.inspect input limit) → files.read input = .ok data →
      Message.peekVersion data = .ok (version, offset) →
      ∃ dump more shown hidden,
        (readers.execute files arguments).status = 0 ∧
        (readers.execute files arguments).stdout =
          Run.printed (Run.summary input version data offset ++ (dump ++ more)) ∧
        data.drop offset = shown ++ hidden ∧ offset + (shown.length + hidden.length) = data.length ∧
        shown.length = min limit (data.length - offset) ∧
        Hexdump.Shows shown dump ∧ (data.length < UInt64.size → Hexdump.Headed offset dump) ∧
        more = if shown = data.drop offset then [] else ["... " ++ toString hidden.length ++ " more bytes"] := by
  refine ⟨fun base data fits => ⟨Hexdump.shows_rows base data, Hexdump.headed_rows fits⟩, ?_⟩
  intro readers files arguments verbose input limit data version offset asked content peeked
  have run : Run.command readers.json (.inspect input limit) ⟨files, []⟩ = .ok _ _ := Run.inspect_eq_ok content peeked
  have inside := Message.offset_le_of_peekVersion peeked
  have split := List.take_append_drop limit (data.drop offset)
  have lengths : offset + (((data.drop offset).take limit).length + ((data.drop offset).drop limit).length) =
      data.length := by
    rw [← List.length_append, split, List.length_drop]
    omega
  refine ⟨_, _, (data.drop offset).take limit, (data.drop offset).drop limit, (execute_of_ok asked run).1, ?_,
    split.symm, lengths, ?_, Hexdump.shows_rows _ _, Hexdump.headed_body (by omega), rfl⟩
  · have all : (data.drop offset).take limit = data.drop offset ↔ (data.drop offset).drop limit = [] := by
      rw [List.take_eq_self_iff, List.drop_eq_nil_iff]
    rw [stdout_of_ok asked run, Run.bodyLines_eq]
    simp only [all]
  · rw [List.length_take, List.length_drop]

section Parcel

/-- The tag `1` and a body of eighteen bytes. -/
def parcel : Bytes := [2, 49] ++ List.replicate 17 7 ++ [255]

def dock : Files := [("p", .file parcel)]

/-- Of eighteen bytes, a full row and one more byte are shown. The last row of a dump may stand at the last
offset there is. -/
theorem dump_loses_nothing_parcel :
    (Hexdump.Shows (List.replicate 17 7) (Hexdump.rows 0xFFFFFFFFFFFFFFEF (List.replicate 17 7)) ∧
      Hexdump.Headed 0xFFFFFFFFFFFFFFEF (Hexdump.rows 0xFFFFFFFFFFFFFFEF (List.replicate 17 7))) ∧
    ∃ dump, (execute dock ["inspect", "p", "--limit", "17"]).status = 0 ∧
      (execute dock ["inspect", "p", "--limit", "17"]).stdout =
        Run.printed (Run.summary "p" "1" parcel 2 ++ (dump ++ ["... " ++ toString 1 ++ " more bytes"])) ∧
      dump.length = 2 ∧ Hexdump.Shows (List.replicate 17 7) dump ∧ Hexdump.Headed 2 dump := by
  have asked : Readers.standard.invocation ["inspect", "p", "--limit", "17"] = .run false (.inspect "p" 17) := by
    decide +kernel
  have content : dock.read "p" = .ok parcel := by decide +kernel
  have peeked : Message.peekVersion parcel = .ok ("1", 2) := by rfl
  obtain ⟨dumping, inspecting⟩ := dump_loses_nothing
  refine ⟨dumping _ _ ?_, ?_⟩
  · rw [Hexdump.length_rows]
    decide
  obtain ⟨dump, more, shown, hidden, zero, stdout, split, -, length, shows, headed, left⟩ :=
    inspecting _ _ _ _ _ _ _ _ _ asked content peeked
  have length : shown.length = (List.replicate 17 (7 : UInt8)).length := length
  have split : List.replicate 17 7 ++ [255] = shown ++ hidden := split
  obtain ⟨rfl, rfl⟩ := List.append_inj split length.symm
  rw [if_neg (by decide)] at left
  subst left
  exact ⟨dump, zero, stdout, shows.count, shows, headed (by decide)⟩

end Parcel

end Wirepack
